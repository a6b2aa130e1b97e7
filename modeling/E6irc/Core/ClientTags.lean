import E6irc.Base.Assoc
import E6irc.Proto.Render

/-!
# The tags a client may send on

`client_tag_string` and `history_client_tags` of `sanitize.rs`.  The client-only
tags of a message are written out once for each key, the last value of each, and
history keeps of that text what is not ephemeral.  Both texts read back as tags
of which every key starts with `+`.
-/

namespace E6irc

open Base List Tag

def maxTagKeyLen : ℕ := 100

/-- A `+`, a vendor's host name and a `/` or not, and a name. -/
def validClientTagKey (key : Bytes) : Bool :=
  match stripFirst (byte '+') key with
  | none => false
  | some rest =>
    if rest = [] ∨ maxTagKeyLen < rest.length then false
    else
      let (vendor, name) := match splitOnce (byte '/') rest with
        | some (vendor, name) => (some vendor, name)
        | none => (none, rest)
      let nameOk := !name.isEmpty && name.all fun b => isAsciiAlphanumeric b || b == byte '-'
      let vendorOk := vendor.all fun vendor =>
        !vendor.isEmpty && vendor.all fun b => isAsciiAlphanumeric b || b == byte '-' || b == byte '.'
      nameOk && vendorOk

/-- The keys in the order of their first tags, and the last value of each. -/
abbrev TagValues := List Bytes × AList fun _ : Bytes => Option Bytes

def TagValues.note (seen : TagValues) (tag : Tag) : TagValues :=
  (if (seen.2.lookup tag.key).isSome then seen.1 else seen.1 ++ [tag.key],
    seen.2.insert tag.key tag.value)

def clientTagString (message : Message) : Bytes :=
  let (order, values) := (message.tags.filter fun tag => validClientTagKey tag.key).foldl
    TagValues.note ([], ∅)
  [byte ';'].intercalate <| order.map fun key =>
    -- every key of the order has a value
    match (values.lookup key).getD none with
    | some value => key ++ byte '=' :: escapeTagValue value
    | none => key

def ephemeralClientTags : List Bytes := [ascii "+typing", ascii "+draft/typing"]

def historyClientTags (relayed : Bytes) : Bytes :=
  [byte ';'].intercalate <| (relayed.splitOn (byte ';')).filter fun tag =>
    let key := (splitOnce (byte '=') tag).elim tag Prod.fst
    key ≠ [] && key ∉ ephemeralClientTags

/-! ## The tags relayed -/

/-- The client-only tags of a message: the last one of each key, in the order of
the first ones. -/
def Message.clientTags (message : Message) : List Tag :=
  ((message.tags.filter fun tag => validClientTagKey tag.key).map key).eraseDups.filterMap
    message.tag

/-- The tags of a text that stands between an `@` and a space; without text there is
no tag section. -/
def tagsOf (text : Bytes) : Except ParseError (List Tag) :=
  if text = [] then .ok [] else parseTagSection text

theorem eraseDups_snoc (keys : List Bytes) (key : Bytes) :
    (keys ++ [key]).eraseDups = if key ∈ keys then keys.eraseDups else keys.eraseDups ++ [key] := by
  rw [eraseDups_append]
  split
  · rename_i seen
    simp [List.removeAll, seen]
  · rename_i fresh
    simp [List.removeAll, fresh, eraseDups_cons]

namespace TagValues

theorem foldl_note (tags : List Tag) :
    (tags.foldl note ([], ∅)).1 = (tags.map key).eraseDups ∧
      ∀ key, (tags.foldl note ([], ∅)).2.lookup key =
        (tags.reverse.find? fun tag => tag.key = key).map value := by
  induction tags using List.reverseRecOn with
  | nil => exact ⟨rfl, fun _ => rfl⟩
  | append_singleton tags tag ih =>
    obtain ⟨order, values⟩ := ih
    rw [foldl_append, foldl_cons, foldl_nil, note]
    constructor
    · have held : ((tags.foldl note ([], ∅)).2.lookup tag.key).isSome = true ↔
          tag.key ∈ tags.map key := by
        rw [values, Option.isSome_map, List.find?_isSome]
        simp
      simp only [held, order, map_append, map_singleton, eraseDups_snoc]
    · intro key
      rw [reverse_append, reverse_singleton, singleton_append, List.find?_cons]
      rcases eq_or_ne tag.key key with rfl | other
      · rw [AList.lookup_insert]
        simp
      · rw [AList.lookup_insert_ne (Ne.symm other), values]
        simp [other]

end TagValues

section

variable {message : Message}

theorem mem_clientTags {tag : Tag} (among : tag ∈ message.clientTags) :
    tag ∈ message.tags ∧ validClientTagKey tag.key = true := by
  obtain ⟨key, isKey, found⟩ := mem_filterMap.mp among
  obtain ⟨first, isFirst, rfl⟩ := mem_map.mp (mem_eraseDups.mp isKey)
  have named := List.find?_some found
  rw [of_decide_eq_true named]
  exact ⟨mem_reverse.mp (mem_of_find?_eq_some found), (mem_filter.mp isFirst).2⟩

/-- The text relayed is the client's tags, written one after the other. -/
theorem clientTagString_eq :
    clientTagString message = [byte ';'].intercalate (message.clientTags.map Tag.render) := by
  obtain ⟨order, values⟩ :=
    TagValues.foldl_note (message.tags.filter fun tag => validClientTagKey tag.key)
  simp only [clientTagString, order, values, Message.clientTags]
  have written : ∀ key ∈
      ((message.tags.filter fun tag => validClientTagKey tag.key).map Tag.key).eraseDups,
      ∃ tag, message.tag key = some tag ∧ tag.key = key ∧
        (message.tags.filter fun tag => validClientTagKey tag.key).reverse.find?
          (fun tag => tag.key = key) = some tag := by
    intro key isKey
    obtain ⟨first, isFirst, rfl⟩ := mem_map.mp (mem_eraseDups.mp isKey)
    have valid := (mem_filter.mp isFirst).2
    have present : (message.tag first.key).isSome = true :=
      List.find?_isSome.mpr ⟨first, mem_reverse.mpr (mem_filter.mp isFirst).1, by simp⟩
    obtain ⟨last, found⟩ := Option.isSome_iff_exists.mp present
    have named := List.find?_some found
    refine ⟨last, found, of_decide_eq_true named, ?_⟩
    -- The tags left out have other keys.
    rw [← filter_reverse, List.find?_filter, ← found, Message.tag]
    congr 1
    funext tag
    rcases eq_or_ne tag.key first.key with same | other
    · simp [same, valid]
    · simp [other]
  congr 1
  generalize ((message.tags.filter fun tag => validClientTagKey tag.key).map Tag.key).eraseDups =
    keys at written
  induction keys with
  | nil => rfl
  | cons key keys ih =>
    obtain ⟨⟨tag, found, rfl, last⟩, later⟩ := forall_mem_cons.mp written
    rw [filterMap_cons_some found, map_cons, map_cons, ih later, last]
    cases value : tag.value <;> simp [Tag.render, value]

/-- A key that is valid starts with `+`. -/
theorem head_of_valid {key : Bytes} (valid : validClientTagKey key = true) :
    key.head? = some (byte '+') := by
  unfold validClientTagKey at valid
  split at valid
  · cases valid
  · rename_i rest stripped
    rw [stripFirst_eq_some.mp stripped]
    rfl

theorem tagsOf_render {tags : List Tag} (wellFormed : ∀ tag ∈ tags, tag.WellFormed) :
    tagsOf ([byte ';'].intercalate (tags.map render)) = .ok tags := by
  rcases eq_or_ne tags [] with rfl | some_tag
  · rfl
  have some_item : ∀ item ∈ tags.map render, item ≠ [] := by
    refine forall_mem_map.mpr fun tag among => ?_
    simp [render, (wellFormed tag among).named]
  have some_text : [byte ';'].intercalate (tags.map render) ≠ [] := by
    rw [Ne, intercalate_eq_nil_iff some_item, map_eq_nil_iff]
    exact some_tag
  rw [tagsOf, if_neg some_text]
  exact parseTagSection_render wellFormed some_tag

/-- History keeps the tags that are not ephemeral. -/
theorem historyClientTags_render {tags : List Tag} (wellFormed : ∀ tag ∈ tags, tag.WellFormed) :
    historyClientTags ([byte ';'].intercalate (tags.map render)) =
      [byte ';'].intercalate ((tags.filter fun tag => tag.key ∉ ephemeralClientTags).map
        render) := by
  rcases eq_or_ne tags [] with rfl | some_tag
  · rfl
  have keyed : ∀ tag ∈ tags,
      (splitOnce (byte '=') tag.render).elim tag.render Prod.fst = tag.key := by
    intro tag among
    have first : byte '=' ∉ tag.key := (disjoint_cons_right.mp (wellFormed tag among).key).1
    obtain ⟨key, value⟩ := tag
    cases value with
    | none =>
      have whole : splitOnce (byte '=') key = none := splitOnce_of_notMem first
      simp [render, whole]
    | some value =>
      have divided : splitOnce (byte '=') (key ++ byte '=' :: escapeTagValue value) =
          some (key, escapeTagValue value) := splitOnce_append first _
      simp [render, divided]
  rw [historyClientTags, splitOn_render wellFormed some_tag, filter_map]
  congr 2
  refine filter_congr fun tag among => ?_
  simp only [Function.comp_apply, keyed tag among]
  simp [(wellFormed tag among).named]

/-- What a client's message relays reads as its client-only tags, the last one of
each key in the order of the first ones, and what history keeps of it as those that
are not ephemeral.  No tag of either is without a `+`. -/
theorem client_tags_read_back (line : Bytes) (message : Message)
    (parsed : Message.parse line = .ok message) :
    tagsOf (clientTagString message) = .ok (((message.tags.filter fun tag =>
      validClientTagKey tag.key).map key).eraseDups.filterMap fun key =>
        message.tags.reverse.find? fun tag => tag.key = key) ∧
    tagsOf (historyClientTags (clientTagString message)) = .ok ((((message.tags.filter fun tag =>
      validClientTagKey tag.key).map key).eraseDups.filterMap fun key =>
        message.tags.reverse.find? fun tag => tag.key = key).filter fun tag =>
          tag.key ∉ [ascii "+typing", ascii "+draft/typing"]) ∧
    ∀ text ∈ [clientTagString message, historyClientTags (clientTagString message)],
      ∀ tags, tagsOf text = .ok tags → ∀ tag ∈ tags, tag.key.head? = some (byte '+') := by
  have wellFormed : ∀ tag ∈ message.clientTags, tag.WellFormed := fun tag among =>
    (Message.wellFormed_of_parse parsed).tags tag (mem_clientTags among).1
  have relayed := tagsOf_render wellFormed
  have kept : ∀ tag ∈ message.clientTags.filter fun tag => tag.key ∉ ephemeralClientTags,
      tag.WellFormed := fun tag among => wellFormed tag (mem_filter.mp among).1
  have stored := tagsOf_render kept
  rw [← historyClientTags_render wellFormed, ← clientTagString_eq] at stored
  rw [← clientTagString_eq] at relayed
  refine ⟨relayed, stored, ?_⟩
  have signed : ∀ tag ∈ message.clientTags, tag.key.head? = some (byte '+') :=
    fun tag among => head_of_valid (mem_clientTags among).2
  intro text isText tags read
  rcases mem_pair.mp isText with rfl | rfl
  · cases relayed.symm.trans read
    exact signed
  · cases stored.symm.trans read
    exact fun tag among => signed tag (mem_filter.mp among).1

theorem client_tags_read_back_reply :
    clientTagString
        { tags := [⟨ascii "time", some (ascii "0")⟩, ⟨ascii "+a", some (ascii "x;y")⟩,
            ⟨ascii "+typing", none⟩, ⟨ascii "+a", some []⟩]
          source := none
          command := ascii "TAGMSG"
          params := [ascii "#m"]
          hasTrailing := false } = ascii "+a=;+typing" ∧
      tagsOf (historyClientTags (ascii "+a=;+typing")) = .ok [⟨ascii "+a", some []⟩] := by
  have told := client_tags_read_back (ascii "@time=0;+a=x\\:y;+typing;+a= TAGMSG #m")
    { tags := [⟨ascii "time", some (ascii "0")⟩, ⟨ascii "+a", some (ascii "x;y")⟩,
        ⟨ascii "+typing", none⟩, ⟨ascii "+a", some []⟩]
      source := none
      command := ascii "TAGMSG"
      params := [ascii "#m"]
      hasTrailing := false } (by decide +kernel)
  exact ⟨by decide +kernel, told.2.1⟩

end

end E6irc
