import E6irc.Base.Lossy
import E6irc.Proto.Message
import E6irc.Proto.Text

/-!
# Decoding a server's line

`decode_server_line` of `e6irc-proto/src/message.rs`: a line is decoded with
replacement, and where that makes it too long, fitted to the wire budgets.  The tags
that grew are dropped, and the rest is cut.

What is left always fits.  Where every tag grew, the tag section is dropped whole,
and the body then stands at the front of the line: a body that begins with an `@` is
read as a tag section.
-/

namespace E6irc

open Base List

def containsReplacement (text : Bytes) : Bool :=
  replacementCharacter <:+: text

/-- The tags without U+FFFD. -/
def keptTags (tags : Bytes) : List Bytes :=
  (tags.splitOn (byte ';')).filter fun tag => !containsReplacement tag

/-- The tag section that is put in front of the body. -/
def fitTags (tags : Bytes) : Bytes :=
  if tags.length + 2 ≤ maxServerTagsLen then byte '@' :: (tags ++ [byte ' '])
  else
    let kept := keptTags tags
    if kept ≠ [] then byte '@' :: ([byte ';'].intercalate kept ++ [byte ' ']) else []

/-- Decode one line of a server, without its CRLF. -/
def decodeServerLine (line : Bytes) : Bytes :=
  let text := fromUtf8Lossy line
  if !serverFrameFits line || serverFrameFits text then text
  else
    let bodyBudget := maxLineLen - 2
    match stripFirst (byte '@') text with
    | none => truncateOnCharBoundary text bodyBudget
    | some rest =>
      match splitOnce (byte ' ') rest with
      | none => truncateOnCharBoundary text maxServerTagsLen
      | some (tags, body) => fitTags tags ++ truncateOnCharBoundary body bodyBudget

/-! ## Tag sections -/

/-- What stands between a leading `@` and the first space. -/
def tagSection (line : Bytes) : Option Bytes :=
  (stripFirst (byte '@') line).bind fun rest => (splitOnce (byte ' ') rest).map Prod.fst

/-- The tags of the tag section, as each one is read. -/
def sectionTags (line : Bytes) : List Tag :=
  (tagSection line).elim [] fun tags =>
    (tags.splitOn (byte ';')).filterMap fun item => (parseTag item).toOption

variable {tags line text : Bytes} {tag : Tag}

theorem mem_sectionTags {item : Bytes} (among : tagSection line = some tags)
    (isItem : item ∈ tags.splitOn (byte ';')) (parsed : parseTag item = .ok tag) :
    tag ∈ sectionTags line := by
  unfold sectionTags
  rw [among]
  exact mem_filterMap.mpr ⟨item, isItem, by rw [parsed]; rfl⟩

/-- The tags of a message are those of its line's tag section. -/
theorem mem_sectionTags_of_parse {message : Message}
    (parsed : Message.parse line = .ok message) (among : tag ∈ message.tags) :
    tag ∈ sectionTags line := by
  obtain ⟨text, split⟩ : ∃ text, splitTags line = .ok (message.tags, text) := by
    unfold Message.parse at parsed
    split at parsed
    · cases parsed
    obtain ⟨⟨tags, text⟩, split, parsed⟩ := bind_eq_ok parsed
    obtain ⟨⟨source, rest⟩, -, parsed⟩ := bind_eq_ok parsed
    dsimp only at parsed
    split at parsed
    · cases parsed
    split at parsed
    · cases parsed
    cases parsed
    exact ⟨text, split⟩
  unfold splitTags at split
  split at split
  · rw [← (Prod.mk.inj (Except.ok.inj split)).1] at among
    cases among
  rename_i first afterAt
  split at split
  · rename_i isAt
    cases divided : splitOnce (byte ' ') afterAt with
    | none =>
      rw [divided] at split
      cases split
    | some sides =>
      rw [divided] at split
      obtain ⟨tags, section_, split⟩ := bind_eq_ok split
      cases split
      obtain ⟨item, isItem, parsed⟩ := exists_of_mapM_eq_ok section_ among
      refine mem_sectionTags ?_ isItem parsed
      simp [tagSection, stripFirst, isAt, divided]
  · rw [← (Prod.mk.inj (Except.ok.inj split)).1] at among
    cases among

/-! ## Fitting -/

theorem frameFits_tagged (first : byte ' ' ∉ tags) (body : Bytes) (budget : ℕ) :
    frameFits (byte '@' :: (tags ++ byte ' ' :: body)) budget = true ↔
      tags.length + 2 ≤ budget ∧ body.length ≤ maxLineLen - 2 := by
  have divided : splitOnce (byte ' ') (byte '@' :: (tags ++ byte ' ' :: body)) =
      some (byte '@' :: tags, body) := by
    have absent : byte ' ' ∉ byte '@' :: tags := by
      rw [mem_cons, not_or]
      exact ⟨by decide, first⟩
    exact splitOnce_append absent body
  have tagged : ¬ (byte '@' :: (tags ++ byte ' ' :: body)).head? ≠ some (byte '@') := not_not.mpr rfl
  unfold frameFits
  dsimp only
  rw [if_neg tagged, divided, Bool.and_eq_true, decide_eq_true_eq, decide_eq_true_eq]
  rfl

/-- A text as short as a body fits, tagged or not. -/
theorem serverFrameFits_of_short (short : text.length ≤ maxLineLen - 2) :
    serverFrameFits text = true := by
  have budget : maxLineLen - 2 + 1 ≤ maxServerTagsLen := by decide
  unfold serverFrameFits frameFits
  dsimp only
  split
  · exact decide_eq_true short
  rcases splitOnce_cases (byte ' ') text with ⟨-, divided⟩ | ⟨front, after, rfl, -, divided⟩
  · rw [divided]
    exact decide_eq_true (by omega)
  rw [length_append, length_cons] at short
  rw [divided]
  simp only [Bool.and_eq_true, decide_eq_true_eq]
  omega

theorem serverFrameFits_tagOnly (absent : byte ' ' ∉ text)
    (short : text.length ≤ maxServerTagsLen) (tagged : text.head? = some (byte '@')) :
    serverFrameFits text = true := by
  simp [serverFrameFits, frameFits, tagged, splitOnce_of_notMem absent, short]

/-! ## What is left of the tags -/

/-- The tags kept are as they were before decoding. -/
theorem length_keptTags (tags : Bytes) :
    ([byte ';'].intercalate (keptTags (fromUtf8Lossy tags))).length ≤ tags.length := by
  have same : keptTags (fromUtf8Lossy tags) =
      (tags.splitOn (byte ';')).filter fun tag => !containsReplacement (fromUtf8Lossy tag) := by
    unfold keptTags
    rw [splitOn_fromUtf8Lossy (by decide), filter_map]
    refine (map_congr_left fun tag kept => ?_).trans (map_id _)
    have plain := (mem_filter.mp kept).2
    simp only [Function.comp_apply, containsReplacement, Bool.not_eq_true', decide_eq_false_iff_not]
      at plain
    exact fromUtf8Lossy_eq_self plain
  rw [same]
  refine (length_intercalate_le filter_sublist).trans_eq ?_
  rw [intercalate_splitOn]

theorem notMem_intercalate_keptTags {b : UInt8} (absent : b ∉ tags)
    (other : b ≠ byte ';') : b ∉ [byte ';'].intercalate (keptTags tags) := by
  intro among
  rcases mem_intercalate among with sep | ⟨tag, kept, inTag⟩
  · exact other sep
  · have whole : [byte ';'].intercalate (tags.splitOn (byte ';')) = tags := intercalate_splitOn _
    rw [← whole] at absent
    exact absent (mem_intercalate_of_mem (mem_filter.mp kept).1 inTag)

theorem tagSection_tagged (first : byte ' ' ∉ tags) (body : Bytes) :
    tagSection (byte '@' :: (tags ++ byte ' ' :: body)) = some tags := by
  simp [tagSection, stripFirst, splitOnce_append first]

attribute [local simp] decodeServerLine

/-- The forms of a line that is too long when it is decoded, and what each becomes. -/
theorem decodeServerLine_cases (fits : serverFrameFits line = true) :
    (serverFrameFits (fromUtf8Lossy line) = true ∧ decodeServerLine line = fromUtf8Lossy line) ∨
    (serverFrameFits (fromUtf8Lossy line) = false ∧
      ((byte '@' ∉ line.head? ∧ decodeServerLine line =
          truncateOnCharBoundary (fromUtf8Lossy line) (maxLineLen - 2)) ∨
        (∃ rest, line = byte '@' :: rest ∧ byte ' ' ∉ rest ∧ decodeServerLine line =
          truncateOnCharBoundary (byte '@' :: fromUtf8Lossy rest) maxServerTagsLen) ∨
        ∃ tags body, line = byte '@' :: (tags ++ byte ' ' :: body) ∧ byte ' ' ∉ tags ∧
          decodeServerLine line = fitTags (fromUtf8Lossy tags) ++
            truncateOnCharBoundary (fromUtf8Lossy body) (maxLineLen - 2))) := by
  cases fitted : serverFrameFits (fromUtf8Lossy line) with
  | true => exact .inl ⟨rfl, by simp [fitted]⟩
  | false =>
    refine .inr ⟨rfl, ?_⟩
    cases tagged : stripFirst (byte '@') (fromUtf8Lossy line) with
    | none =>
      refine .inl ⟨fun first => ?_, by simp [fits, fitted, tagged]⟩
      obtain ⟨rest, rfl⟩ := List.head?_eq_some_iff.mp first
      rw [fromUtf8Lossy_cons (by decide)] at tagged
      simp [stripFirst] at tagged
    | some text =>
      refine .inr ?_
      obtain ⟨rest, rfl, rfl⟩ := fromUtf8Lossy_eq_cons (by decide) (stripFirst_eq_some.mp tagged)
      have divided := splitOnce_fromUtf8Lossy (show byte ' ' < 0x80 by decide) rest
      rcases splitOnce_cases (byte ' ') rest with ⟨absent, whole⟩ | ⟨tags, body, rfl, first, whole⟩
      · refine .inl ⟨rest, rfl, absent, ?_⟩
        rw [whole] at divided
        rw [← fromUtf8Lossy_cons (by decide)]
        simp [fits, fitted, tagged, divided]
      · refine .inr ⟨tags, body, rfl, first, ?_⟩
        rw [whole] at divided
        simp [fits, fitted, tagged, divided]

/-- The tags that are put in front are tags of the section and within their budget,
or none is, as every one of too many bytes grew. -/
theorem fitTags_cases (first : byte ' ' ∉ tags) (within : tags.length + 2 ≤ maxServerTagsLen) :
    (∃ kept, fitTags (fromUtf8Lossy tags) = byte '@' :: (kept ++ [byte ' ']) ∧ byte ' ' ∉ kept ∧
      kept.length + 2 ≤ maxServerTagsLen ∧
      ∀ item ∈ kept.splitOn (byte ';'), item ∈ (fromUtf8Lossy tags).splitOn (byte ';')) ∨
    (fitTags (fromUtf8Lossy tags) = [] ∧ maxServerTagsLen < (fromUtf8Lossy tags).length + 2 ∧
      keptTags (fromUtf8Lossy tags) = []) := by
  have firstText : byte ' ' ∉ fromUtf8Lossy tags := notMem_fromUtf8Lossy (by decide) first
  unfold fitTags
  split
  · rename_i short
    exact .inl ⟨_, rfl, firstText, short, fun _ isItem => isItem⟩
  rename_i long
  dsimp only
  split
  · rename_i some_kept
    have bound := length_keptTags tags
    refine .inl ⟨_, rfl, notMem_intercalate_keptTags firstText (by decide), by omega, ?_⟩
    have plain : ∀ tag ∈ keptTags (fromUtf8Lossy tags), byte ';' ∉ tag :=
      fun tag kept => notMem_of_mem_splitOn (mem_filter.mp kept).1
    rw [splitOn_intercalate _ plain some_kept]
    exact fun item kept => (mem_filter.mp kept).1
  · rename_i none_kept
    exact .inr ⟨rfl, not_le.mp long, not_not.mp none_kept⟩

/-- The whole tag section is dropped, and the body in its place is a message with a
tag that the section did not have. -/
def ReadsBodyAsTags (line : Bytes) : Prop :=
  ∃ tags body message tag, line = byte '@' :: (tags ++ byte ' ' :: body) ∧ byte ' ' ∉ tags ∧
    maxServerTagsLen < (fromUtf8Lossy tags).length + 2 ∧ keptTags (fromUtf8Lossy tags) = [] ∧
    Message.parse (truncateOnCharBoundary (fromUtf8Lossy body) (maxLineLen - 2)) = .ok message ∧
    tag ∈ message.tags ∧ tag ∉ sectionTags (fromUtf8Lossy line)

section

variable {line text : Bytes}

theorem tagSection_fromUtf8Lossy (line : Bytes) :
    tagSection (fromUtf8Lossy line) = (tagSection line).map fromUtf8Lossy := by
  unfold tagSection
  cases tagged : stripFirst (byte '@') line with
  | some rest =>
    obtain rfl := stripFirst_eq_some.mp tagged
    have tagged' : stripFirst (byte '@') (fromUtf8Lossy (byte '@' :: rest)) =
        some (fromUtf8Lossy rest) := by
      rw [fromUtf8Lossy_cons (by decide), stripFirst_eq_some]
    rw [tagged', Option.bind_some, Option.bind_some, splitOnce_fromUtf8Lossy (by decide),
      Option.map_map, Option.map_map]
    rfl
  | none =>
    cases tagged' : stripFirst (byte '@') (fromUtf8Lossy line) with
    | none => rfl
    | some rest =>
      obtain ⟨after, rfl, -⟩ := fromUtf8Lossy_eq_cons (by decide) (stripFirst_eq_some.mp tagged')
      simp [stripFirst] at tagged

/-- A text cut from one without a tag section has none. -/
theorem tagSection_of_cut (cut : text <+: fromUtf8Lossy line)
    (untagged : byte '@' ∉ line.head? ∨ byte ' ' ∉ line) : tagSection text = none := by
  unfold tagSection
  cases tagged : stripFirst (byte '@') text with
  | none => rfl
  | some rest =>
    obtain rfl := stripFirst_eq_some.mp tagged
    obtain ⟨after, whole⟩ := cut
    obtain ⟨body, rfl, -⟩ := fromUtf8Lossy_eq_cons (by decide) whole.symm
    rcases untagged with noAt | noSpace
    · exact absurd rfl noAt
    have absent : byte ' ' ∉ rest := fun among =>
      notMem_fromUtf8Lossy (by decide) noSpace
        (whole ▸ mem_append_left _ (mem_cons_of_mem _ among))
    rw [Option.bind_some, splitOnce_of_notMem absent]
    rfl

theorem decodeServerLine_fits (fits : serverFrameFits line = true) :
    serverFrameFits (decodeServerLine line) = true := by
  rcases decodeServerLine_cases fits with ⟨fitted, same⟩ |
    ⟨-, ⟨-, cut⟩ | ⟨rest, -, absent, cut⟩ | ⟨tags, body, rfl, first, cut⟩⟩
  · rw [same, fitted]
  · rw [cut]
    exact serverFrameFits_of_short (length_truncateOnCharBoundary _ _)
  · rw [cut]
    have short := length_truncateOnCharBoundary (byte '@' :: fromUtf8Lossy rest) maxServerTagsLen
    have part := truncateOnCharBoundary_cuts (byte '@' :: fromUtf8Lossy rest) maxServerTagsLen
    generalize truncateOnCharBoundary (byte '@' :: fromUtf8Lossy rest) maxServerTagsLen = text
      at short part
    have noSpace : byte ' ' ∉ text := fun among => by
      rcases mem_cons.mp (part.subset among) with at_ | later
      · exact absurd at_ (by decide)
      · exact notMem_fromUtf8Lossy (by decide) absent later
    cases text with
    | nil => rfl
    | cons b text =>
      rw [(cons_prefix_cons.mp part).1] at noSpace short ⊢
      exact serverFrameFits_tagOnly noSpace short rfl
  · obtain ⟨within, -⟩ := (frameFits_tagged first body _).mp fits
    have short := length_truncateOnCharBoundary (fromUtf8Lossy body) (maxLineLen - 2)
    rw [cut]
    rcases fitTags_cases first within with ⟨kept, section_, apart, short', -⟩ | ⟨dropped, -⟩
    · rw [section_, cons_append, append_assoc, singleton_append]
      exact (frameFits_tagged apart _ _).mpr ⟨short', short⟩
    · rw [dropped, nil_append]
      exact serverFrameFits_of_short short

/-- The tag section of what is left, and where it comes from. -/
theorem tagSection_decodeServerLine (fits : serverFrameFits line = true) :
    decodeServerLine line = fromUtf8Lossy line ∨ tagSection (decodeServerLine line) = none ∨
    ∃ tags body, line = byte '@' :: (tags ++ byte ' ' :: body) ∧ byte ' ' ∉ tags ∧
      ((∃ kept, tagSection (decodeServerLine line) = some kept ∧
        ∀ item ∈ kept.splitOn (byte ';'), item ∈ (fromUtf8Lossy tags).splitOn (byte ';')) ∨
      (maxServerTagsLen < (fromUtf8Lossy tags).length + 2 ∧ keptTags (fromUtf8Lossy tags) = [] ∧
        decodeServerLine line = truncateOnCharBoundary (fromUtf8Lossy body) (maxLineLen - 2))) := by
  rcases decodeServerLine_cases fits with ⟨-, same⟩ |
    ⟨-, ⟨noAt, cut⟩ | ⟨rest, rfl, absent, cut⟩ | ⟨tags, body, rfl, first, cut⟩⟩
  · exact .inl same
  · rw [cut]
    exact .inr (.inl (tagSection_of_cut (truncateOnCharBoundary_cuts _ _) (.inl noAt)))
  · rw [cut, ← fromUtf8Lossy_cons (by decide)]
    refine .inr (.inl (tagSection_of_cut (truncateOnCharBoundary_cuts _ _) (.inr ?_)))
    rw [mem_cons, not_or]
    exact ⟨by decide, absent⟩
  · refine .inr (.inr ⟨tags, body, rfl, first, ?_⟩)
    obtain ⟨within, -⟩ := (frameFits_tagged first body _).mp fits
    rcases fitTags_cases first within with ⟨kept, section_, apart, -, items⟩ | ⟨dropped, long, none⟩
    · refine .inl ⟨kept, ?_, items⟩
      rw [cut, section_, cons_append, append_assoc, singleton_append]
      exact tagSection_tagged apart _
    · refine .inr ⟨long, none, ?_⟩
      rw [cut, dropped, nil_append]

/-- A tag section that is too long and has no tag to keep is dropped whole. -/
theorem decodeServerLine_of_dropped {tags body : Bytes}
    (fits : serverFrameFits (byte '@' :: (tags ++ byte ' ' :: body)) = true)
    (first : byte ' ' ∉ tags) (long : maxServerTagsLen < (fromUtf8Lossy tags).length + 2)
    (none : keptTags (fromUtf8Lossy tags) = []) :
    decodeServerLine (byte '@' :: (tags ++ byte ' ' :: body)) =
      truncateOnCharBoundary (fromUtf8Lossy body) (maxLineLen - 2) := by
  have text : fromUtf8Lossy (byte '@' :: (tags ++ byte ' ' :: body)) =
      byte '@' :: (fromUtf8Lossy tags ++ byte ' ' :: fromUtf8Lossy body) := by
    rw [fromUtf8Lossy_cons (by decide), fromUtf8Lossy_append (by decide)]
  have firstText : byte ' ' ∉ fromUtf8Lossy tags := notMem_fromUtf8Lossy (by decide) first
  have grown : serverFrameFits (fromUtf8Lossy (byte '@' :: (tags ++ byte ' ' :: body))) = false := by
    rw [Bool.eq_false_iff, text, serverFrameFits, Ne, frameFits_tagged firstText]
    omega
  have dropped : fitTags (fromUtf8Lossy tags) = [] := by
    unfold fitTags
    rw [if_neg (not_le.mpr long), none]
    rfl
  unfold decodeServerLine
  dsimp only
  rw [fits, grown, text]
  simp [stripFirst, splitOnce_append firstText, dropped]

end

/-- A line that fits as bytes decodes to text that fits, to the plain decoding where
that fits, and to a tagged text only where it was tagged.  Every tag read in the text
was a tag of the line exactly if the body does not take the place of the tags. -/
theorem decodeServerLine_keeps_tags_iff (line : Bytes) (fits : serverFrameFits line = true) :
    (serverFrameFits (decodeServerLine line) = true ∧
      (serverFrameFits (fromUtf8Lossy line) = true → decodeServerLine line = fromUtf8Lossy line) ∧
      (∀ message, Message.parse (decodeServerLine line) = .ok message →
        ∀ tag ∈ message.tags, tag ∈ sectionTags (fromUtf8Lossy line)) ∧
      ((tagSection (decodeServerLine line)).isSome = true → (tagSection line).isSome = true)) ↔
    ¬ ReadsBodyAsTags line := by
  constructor
  · rintro ⟨-, -, kept, -⟩ ⟨tags, body, message, tag, rfl, first, long, none, parsed, among, foreign⟩
    rw [← decodeServerLine_of_dropped fits first long none] at parsed
    exact foreign (kept message parsed tag among)
  · intro plain
    refine ⟨decodeServerLine_fits fits, fun fitted => ?_, fun message parsed tag among => ?_, ?_⟩
    · simp [fitted]
    · rcases tagSection_decodeServerLine fits with same | untagged |
        ⟨tags, body, rfl, first, ⟨kept, section_, items⟩ | ⟨long, none, cut⟩⟩
      · rw [← same]
        exact mem_sectionTags_of_parse parsed among
      · have read := mem_sectionTags_of_parse parsed among
        rw [sectionTags, untagged] at read
        cases read
      · have read := mem_sectionTags_of_parse parsed among
        rw [sectionTags, section_] at read
        obtain ⟨item, isItem, isTag⟩ := mem_filterMap.mp read
        refine mem_sectionTags ?_ (items item isItem) (toOption_eq_some isTag)
        rw [tagSection_fromUtf8Lossy, tagSection_tagged first]
        rfl
      · by_contra foreign
        rw [cut] at parsed
        exact plain ⟨tags, body, message, tag, rfl, first, long, none, parsed, among, foreign⟩
    · intro tagged
      rcases tagSection_decodeServerLine fits with same | untagged | ⟨tags, body, rfl, first, -⟩
      · rw [same, tagSection_fromUtf8Lossy, Option.isSome_map] at tagged
        exact tagged
      · rw [untagged] at tagged
        cases tagged
      · rw [tagSection_tagged first]
        rfl

/-- A tag section of bytes that are not UTF-8, before a body with a time of its own. -/
def forgedTime : Bytes :=
  byte '@' :: (List.replicate 2730 0xFF ++ byte ' ' :: ascii "@time=now PING")

theorem decodeServerLine_reads_body_as_tags :
    serverFrameFits forgedTime = true ∧
      decodeServerLine forgedTime = ascii "@time=now PING" ∧
      Message.parse (decodeServerLine forgedTime) =
        .ok ⟨[⟨ascii "time", some (ascii "now")⟩], none, ascii "PING", [], false⟩ ∧
      ⟨ascii "time", some (ascii "now")⟩ ∉ sectionTags (fromUtf8Lossy forgedTime) := by
  decide +kernel

theorem decodeServerLine_keeps_tags_of_latin1 :
    ¬ ReadsBodyAsTags (ascii "@time=now PING " ++ [0xE9]) := by
  have fits : serverFrameFits (ascii "@time=now PING " ++ [0xE9]) = true := by decide +kernel
  have read : Message.parse (decodeServerLine (ascii "@time=now PING " ++ [0xE9])) =
      .ok ⟨[⟨ascii "time", some (ascii "now")⟩], none, ascii "PING", [replacementCharacter], false⟩ := by
    decide +kernel
  refine (decodeServerLine_keeps_tags_iff _ fits).mp ⟨by decide +kernel, by decide +kernel, ?_,
    by decide +kernel⟩
  intro message parsed
  rw [read] at parsed
  cases parsed
  decide +kernel

end E6irc
