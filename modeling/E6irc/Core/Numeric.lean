import E6irc.Base.Packing
import E6irc.Core.ListMask
import E6irc.Proto.Render

/-!
# Numeric replies

`numeric_line` of `core/state.rs` and the parameters it writes (`Middle` of
`core/middle.rs`).  The head is followed by the middles, each cut to the room
the line has left, and by the trailing text; the line reads back as exactly
those parameters.
-/

namespace E6irc

open Base List

/-! ## Middles -/

/-- `MiddleParam::ECHO_MAX`. -/
def echoMax : ℕ := 64

/-- `MiddleParam::echo`, as it is written on the wire. -/
def echoWire (token : Bytes) : Bytes :=
  if standsAlone token then truncateOnCharBoundary token echoMax else ascii "*"

inductive Middle
  | echo (token : Text)
  | own (value : Text)
deriving DecidableEq, Repr

namespace Middle

/-- The parameter before the line's own budget. -/
def wire : Middle → Bytes
  | echo token => echoWire token.bytes
  | own value => ownWire value.bytes

/-- Whatever a middle is made from, it is one parameter of valid text. -/
theorem wire_standsAlone (middle : Middle) :
    standsAlone middle.wire = true ∧ isUtf8 middle.wire = true := by
  have fits : ∀ (text : Text) (maxBytes : ℕ), 4 ≤ maxBytes →
      standsAlone (if standsAlone text.bytes then truncateOnCharBoundary text.bytes maxBytes
        else ascii "*") = true ∧
      isUtf8 (if standsAlone text.bytes then truncateOnCharBoundary text.bytes maxBytes
        else ascii "*") = true := by
    intro text maxBytes room
    split
    · rename_i alone
      have some_text := (standsAlone_iff.mp alone).1
      exact ⟨standsAlone_of_cut alone (truncateOnCharBoundary_cuts _ _)
        (truncateOnCharBoundary_ne_nil text.isUtf8 some_text room),
        isUtf8_truncateOnCharBoundary text.isUtf8 maxBytes⟩
    · exact ⟨by decide, by decide⟩
  cases middle with
  | echo token => exact fits token echoMax (by decide)
  | own value => exact fits value ownMax (by decide)

end Middle

/-! ## The line -/

/-- A numeric as it appears on the wire: zero-padded three digits. -/
def codeStr (code : ℕ) : Bytes :=
  (decimal code).leftpad 3 (byte '0')

def wireBudget : ℕ := maxLineLen - 2

/-- The middles appended to `line` while there is room for them. -/
def appendMiddles (reserve : ℕ) (line : Bytes) : List Middle → Bytes
  | [] => line
  | p :: rest =>
    let avail := wireBudget - reserve - line.length
    if avail ≤ 1 then line
    else
      -- A cut inside the first character would leave an empty parameter.
      let fitted := truncateOnCharBoundary p.wire (avail - 1)
      if fitted = [] then line
      else appendMiddles reserve (line ++ byte ' ' :: fitted) rest

def numericHead (serverName : Bytes) (code : ℕ) (target : Bytes) : Bytes :=
  ascii ":" ++ serverName ++ ascii " " ++ codeStr code ++ ascii " " ++ target

/-- The numeric `code` to `target`, as the server `serverName` writes it. -/
def numericLine (serverName : Bytes) (code : ℕ) (target : Bytes) (middle : List Middle)
    (trailing : Option Bytes) : Bytes :=
  let reserve := if trailing.isSome then 2 else 0
  let line := appendMiddles reserve (numericHead serverName code target) middle
  match trailing with
  | none => line
  | some text =>
    let line := line ++ ascii " :"
    line ++ truncateOnCharBoundary text (maxLineLen - (line.length + 2))

/-! ## What is written of the middles -/

/-- What is written of each middle when there are `room` bytes. -/
def fitted : ℕ → List Middle → List Bytes
  | _, [] => []
  | room, p :: rest =>
    let text := truncateOnCharBoundary p.wire (room - 1)
    if room ≤ 1 ∨ text = [] then [] else text :: fitted (room - (text.length + 1)) rest

theorem fitted_cases (room : ℕ) (p : Middle) (rest : List Middle) :
    ((room ≤ 1 ∨ truncateOnCharBoundary p.wire (room - 1) = []) ∧ fitted room (p :: rest) = []) ∨
      ∃ text, text = truncateOnCharBoundary p.wire (room - 1) ∧ 1 < room ∧ text ≠ [] ∧
        fitted room (p :: rest) = text :: fitted (room - (text.length + 1)) rest := by
  rw [fitted]
  split
  · rename_i stops
    exact .inl ⟨stops, rfl⟩
  · rename_i goesOn
    simp only [not_or, Nat.not_le] at goesOn
    exact .inr ⟨_, rfl, goesOn.1, goesOn.2, rfl⟩

theorem appendMiddles_eq (reserve : ℕ) (line : Bytes) (middles : List Middle) :
    appendMiddles reserve line middles =
      line ++ (fitted (wireBudget - reserve - line.length) middles).flatMap
        fun text => byte ' ' :: text := by
  induction middles generalizing line with
  | nil => simp [appendMiddles, fitted]
  | cons p rest ih =>
    rw [appendMiddles]
    rcases fitted_cases (wireBudget - reserve - line.length) p rest with
      ⟨stops, nothing⟩ | ⟨text, rfl, room, some_text, more⟩
    · rw [nothing, flatMap_nil, append_nil]
      rcases stops with full | empty
      · exact if_pos full
      · simp [empty]
    · rw [more, if_neg (Nat.not_le.mpr room), if_neg some_text, ih, flatMap_cons,
        length_append, length_cons, ← Nat.sub_sub _ line.length, append_assoc]

/-- The middles written take no more than the room there is. -/
theorem length_fitted_le (room : ℕ) (middles : List Middle) :
    ((fitted room middles).flatMap fun text => byte ' ' :: text).length ≤ room := by
  induction middles generalizing room with
  | nil => exact Nat.zero_le _
  | cons p rest ih =>
    rcases fitted_cases room p rest with ⟨_, nothing⟩ | ⟨text, cut, some_room, _, more⟩
    · rw [nothing]
      exact Nat.zero_le _
    have short := length_truncateOnCharBoundary p.wire (room - 1)
    have later := ih (room - (text.length + 1))
    rw [← cut] at short
    rw [more, flatMap_cons, length_append, length_cons]
    omega

/-- Each middle written is a cut of the one given, and not empty. -/
theorem fitted_cuts (room : ℕ) (middles : List Middle) :
    Forall₂ (fun text (middle : Middle) => text ≠ [] ∧
        ∃ maxBytes, text = truncateOnCharBoundary middle.wire maxBytes)
      (fitted room middles) (middles.take (fitted room middles).length) := by
  induction middles generalizing room with
  | nil => exact .nil
  | cons p rest ih =>
    rcases fitted_cases room p rest with ⟨_, nothing⟩ | ⟨text, cut, _, some_text, more⟩
    · rw [nothing]
      exact .nil
    · rw [more, length_cons, take_succ_cons]
      exact .cons ⟨some_text, _, cut⟩ (ih _)

theorem fitted_standsAlone (room : ℕ) (middles : List Middle) :
    ∀ text ∈ fitted room middles, standsAlone text = true := by
  induction middles generalizing room with
  | nil => nofun
  | cons p rest ih =>
    rcases fitted_cases room p rest with ⟨_, nothing⟩ | ⟨text, cut, _, some_text, more⟩
    · rw [nothing]
      nofun
    have alone : standsAlone text = true :=
      standsAlone_of_cut p.wire_standsAlone.1 (cut ▸ truncateOnCharBoundary_cuts _ _) some_text
    rw [more]
    exact forall_mem_cons.mpr ⟨alone, ih _⟩

/-- In three bytes there is room for one middle at most. -/
theorem length_fitted_of_small {room : ℕ} (small : room ≤ 3) (middles : List Middle) :
    (fitted room middles).length ≤ 1 := by
  cases middles with
  | nil => exact Nat.zero_le _
  | cons p rest =>
    rcases fitted_cases room p rest with ⟨_, nothing⟩ | ⟨text, _, _, some_text, more⟩
    · rw [nothing]
      exact Nat.zero_le _
    have long := length_pos_of_ne_nil some_text
    have full : fitted (room - (text.length + 1)) rest = [] := by
      cases rest with
      | nil => rfl
      | cons next rest =>
        rw [fitted]
        exact if_pos (.inl (by omega))
    rw [more, full]
    exact le_rfl

/-- All but the last two are whole: a cut leaves three bytes at most. -/
theorem fitted_whole (room : ℕ) (middles : List Middle) {i : ℕ}
    (early : i + 2 < (fitted room middles).length) :
    (fitted room middles)[i]? = middles[i]?.map Middle.wire := by
  induction middles generalizing room i with
  | nil => cases early
  | cons p rest ih =>
    rcases fitted_cases room p rest with ⟨_, nothing⟩ | ⟨text, cut, some_room, _, more⟩
    · rw [nothing] at early
      cases early
    rw [more, length_cons] at early
    rcases Nat.lt_or_ge (room - 1) p.wire.length with long | short
    · have near := le_length_truncateOnCharBoundary p.wire_standsAlone.2 long.le
      rw [← cut] at near
      have few := length_fitted_of_small (show room - (text.length + 1) ≤ 3 by omega) rest
      omega
    · rw [truncateOnCharBoundary_eq_self short] at cut
      cases i with
      | zero => rw [more, cut]; rfl
      | succ i =>
        rw [more, getElem?_cons_succ, getElem?_cons_succ]
        exact ih _ (by omega)

/-! ## The line reads back -/

theorem codeStr_valid : ∀ code < 1000, validCommand (codeStr code) = true := by
  decide +kernel

section

variable {serverName target : Bytes} {source : Source} {code : ℕ}

/-- The message of a numeric with the parameters written. -/
def numericMessage (source : Source) (code : ℕ) (target : Bytes) (written : List Bytes)
    (trailing : Option Bytes) : Message where
  tags := []
  source := some source
  command := codeStr code
  params := target :: (written ++ trailing.toList)
  hasTrailing := trailing.isSome

theorem render_numericMessage (named : parseSource serverName = .ok source) (written : List Bytes)
    (trailing : Option Bytes) :
    (numericMessage source code target written trailing).render =
      numericHead serverName code target ++ (written.flatMap fun text => byte ' ' :: text) ++
        trailing.elim [] fun text => ascii " :" ++ text := by
  obtain ⟨_, rfl, _⟩ := Source.parse_eq_ok_iff.mp named
  have params := renderParams_middles (target :: written) trailing
  rw [cons_append] at params
  simp only [Message.render, Message.renderUntagged, Message.renderCommand, numericMessage, params]
  simp [numericHead, ascii]

theorem wellFormed_numericMessage (named : parseSource serverName = .ok source)
    (server : standsAlone serverName = true) (nick : standsAlone target = true) (short : code < 1000)
    {written : List Bytes} (alone : ∀ text ∈ written, standsAlone text = true)
    {trailing : Option Bytes} (clean : ∀ text ∈ trailing, text.Disjoint illegal) :
    (numericMessage source code target written trailing).WellFormed where
  tags := nofun
  source := by
    rintro _ ⟨⟩
    exact Source.wellFormed_of_parse (standsAlone_iff.mp server).2.2 named
  command := codeStr_valid code short
  params := ParamsWellFormed.cons nick (.of_middles alone clean)

/-- A numeric is its head, the middles there is room for, and the trailing text cut
to what is left. -/
theorem numericLine_eq (fits : (numericHead serverName code target).length ≤ 508)
    (middles : List Middle) (trailing : Option Bytes) :
    ∃ room maxBytes, numericLine serverName code target middles trailing =
        numericHead serverName code target ++
          ((fitted room middles).flatMap fun text => byte ' ' :: text) ++
          ((trailing.map fun text => truncateOnCharBoundary text maxBytes).elim [] fun text =>
            ascii " :" ++ text) ∧
      (numericLine serverName code target middles trailing).length ≤ 510 := by
  have budget : wireBudget = 510 := rfl
  cases trailing with
  | none =>
    have room := length_fitted_le (wireBudget - 0 - (numericHead serverName code target).length)
      middles
    have line : numericLine serverName code target middles none = _ :=
      appendMiddles_eq 0 (numericHead serverName code target) middles
    refine ⟨wireBudget - 0 - (numericHead serverName code target).length, 0, ?_, ?_⟩
    · rw [line, Option.map_none, Option.elim_none, append_nil]
    · rw [line, length_append]
      omega
  | some text =>
    have room := length_fitted_le (wireBudget - 2 - (numericHead serverName code target).length)
      middles
    have line := appendMiddles_eq 2 (numericHead serverName code target) middles
    have length : (appendMiddles 2 (numericHead serverName code target) middles).length ≤ 508 := by
      rw [line, length_append]
      omega
    refine ⟨wireBudget - 2 - (numericHead serverName code target).length, maxLineLen -
      ((appendMiddles 2 (numericHead serverName code target) middles ++ ascii " :").length + 2),
      ?_, ?_⟩
    · rw [← line, Option.map_some, Option.elim_some, ← append_assoc]
      rfl
    have cut := length_truncateOnCharBoundary text (maxLineLen -
      ((appendMiddles 2 (numericHead serverName code target) middles ++ ascii " :").length + 2))
    have marker : (ascii " :").length = 2 := rfl
    have most : maxLineLen = 512 := rfl
    rw [numericLine]
    simp only [Option.isSome_some, if_true, length_append] at cut ⊢
    omega

/-- A numeric within the head's bound is a line that fits the wire and reads back
as its code, the target, a cut of each of the first middles (all but the last
two whole, none empty) and, if one was given, a cut of the trailing text. -/
theorem numeric_line_reads_back (named : parseSource serverName = .ok source)
    (server : standsAlone serverName = true) (nick : standsAlone target = true) (short : code < 1000)
    (fits : (ascii ":" ++ serverName ++ ascii " " ++ codeStr code ++ ascii " " ++ target).length ≤ 508)
    (middles : List Middle) (trailing : Option Bytes)
    (clean : ∀ text ∈ trailing, text.Disjoint [13, 10, 0]) :
    (numericLine serverName code target middles trailing).length ≤ 510 ∧
      ∃ (written : List Bytes) (maxBytes : ℕ),
        Message.parse (numericLine serverName code target middles trailing) = .ok
          { tags := []
            source := some source
            command := codeStr code
            params := target ::
              (written ++ (trailing.map fun text => truncateOnCharBoundary text maxBytes).toList)
            hasTrailing := trailing.isSome } ∧
        Forall₂ (fun text (middle : Middle) => text ≠ [] ∧
            ∃ maxBytes, text = truncateOnCharBoundary middle.wire maxBytes)
          written (middles.take written.length) ∧
        ∀ i, i + 2 < written.length → written[i]? = middles[i]?.map Middle.wire := by
  obtain ⟨room, maxBytes, line, length⟩ := numericLine_eq fits middles trailing
  refine ⟨length, fitted room middles, maxBytes, ?_, fitted_cuts room middles,
    fun i early => fitted_whole room middles early⟩
  have cutClean : ∀ text ∈ trailing.map fun text => truncateOnCharBoundary text maxBytes,
      text.Disjoint illegal := by
    intro text isCut
    obtain ⟨given, isGiven, rfl⟩ := Option.mem_map.mp isCut
    exact disjoint_of_subset_left (truncateOnCharBoundary_cuts given maxBytes).subset
      (clean given isGiven)
  have read := (wellFormed_numericMessage named server nick short
    (fitted_standsAlone room middles) cutClean).parse_render
  rw [render_numericMessage named, ← line] at read
  rw [read, numericMessage, Option.isSome_map]

theorem numeric_line_reads_back_nick :
    numericLine (ascii "irc.example") 433 (ascii "*") [.echo ⟨ascii "a b", by decide⟩]
        (some (ascii "Nickname is in use")) =
      ascii ":irc.example 433 * * :Nickname is in use" ∧
    (numericLine (ascii "irc.example") 433 (ascii "*") [.echo ⟨ascii "a b", by decide⟩]
      (some (ascii "Nickname is in use"))).length ≤ 510 := by
  have named : parseSource (ascii "irc.example") = .ok ⟨ascii "irc.example", none, none⟩ := by
    decide +kernel
  have clean : ∀ text ∈ some (ascii "Nickname is in use"), text.Disjoint [13, 10, 0] := by
    rintro _ ⟨⟩
    exact disjoint_of_all (by decide)
  exact ⟨by decide +kernel, (numeric_line_reads_back named (by decide) (by decide) (by decide)
    (by decide +kernel) _ _ clean).1⟩

/-- Four middles of 100 bytes, one of 95 bytes and a snowman, and one of a byte. -/
def snowman : List Middle :=
  replicate 4 (.own ⟨replicate 100 (byte 'x'), by decide +kernel⟩) ++
    [.own ⟨replicate 95 (byte 'x') ++ [0xE2, 0x98, 0x83], by decide +kernel⟩,
      .own ⟨ascii "y", by decide⟩]

/-- The fifth middle is cut before its last character, which leaves room for the
sixth; and a server's name that starts with `@` is no source at all. -/
theorem cut_before_the_last :
    (numericHead (ascii "s") 1 (ascii "t")).length ≤ 508 ∧
    Message.parse (numericLine (ascii "s") 1 (ascii "t") snowman none) = .ok
      { tags := []
        source := some ⟨ascii "s", none, none⟩
        command := ascii "001"
        params := ascii "t" :: (replicate 4 (replicate 100 (byte 'x')) ++
          [replicate 95 (byte 'x'), ascii "y"])
        hasTrailing := false } ∧
    snowman[4]?.map Middle.wire ≠ some (replicate 95 (byte 'x')) ∧
    standsAlone (ascii "@s") = true ∧
    Message.parse (numericLine (ascii "@s") 1 (ascii "t") [] none) = .error .badSource := by
  decide +kernel

end

/-! ## Lists -/

/-- The length of the line around an empty trailing, ` :` included. -/
def numericHeadLen (serverName : Bytes) (code : ℕ) (target : Bytes) (middle : List Middle) : ℕ :=
  (numericLine serverName code target middle (some [])).length

/-- The trailing texts that the items are joined to, where `line` is being filled. -/
def packItems (budget : ℕ) (sep : Bytes) : Bytes → List Bytes → List Bytes
  | line, [] => if line = [] then [] else [line]
  | line, item :: rest =>
    if line ≠ [] ∧ budget < line.length + 1 + item.length then
      line :: packItems budget sep item rest
    else packItems budget sep (if line = [] then item else line ++ sep ++ item) rest

/-- The lines of a list; `sep` is the character between two items, in UTF-8. -/
def numericListLines (serverName : Bytes) (code : ℕ) (target : Bytes) (middle : List Middle)
    (items : List Bytes) (sep : Bytes) : List Bytes :=
  let budget := max (maxLineLen - (numericHeadLen serverName code target middle + 2)) 1
  (packItems budget sep [] items).map fun text =>
    numericLine serverName code target middle (some text)

section

variable {serverName target : Bytes} {code : ℕ} {middle : List Middle} {sep : UInt8}
  {items : List Bytes} {budget : ℕ}

/-- A text is written behind the head of its line, cut to what is left. -/
theorem numericLine_some (serverName : Bytes) (code : ℕ) (target : Bytes) (middle : List Middle)
    (text : Bytes) :
    numericLine serverName code target middle (some text) =
      numericLine serverName code target middle (some []) ++
        truncateOnCharBoundary text
          (maxLineLen - (numericHeadLen serverName code target middle + 2)) := by
  have head : ∀ maxBytes, truncateOnCharBoundary [] maxBytes = [] :=
    fun _ => truncateOnCharBoundary_eq_self (Nat.zero_le _)
  simp only [numericHeadLen, numericLine, Option.isSome_some, head, append_nil]

/-- Items joined in groups, as many in each as there is room for. -/
theorem packItems_eq_pack (some_text : ∀ item ∈ items, item ≠ []) (group : List Bytes)
    (current : ∀ item ∈ group, item ≠ []) :
    packItems budget [sep] ([sep].intercalate group) items =
      (pack (fun group => ([sep].intercalate group).length ≤ budget) group items).map
        [sep].intercalate := by
  induction items generalizing group with
  | nil =>
    rw [packItems, pack]
    by_cases none : group = []
    · rw [none]
      rfl
    · rw [if_neg fun empty => none ((intercalate_eq_nil_iff current).mp empty),
        if_neg (by simpa using none)]
      rfl
  | cons item rest ih =>
    obtain ⟨here, later⟩ := forall_mem_cons.mp some_text
    have alone : [sep].intercalate [item] = item := intercalate_singleton
    have starts := ih later [item] (forall_mem_singleton.mpr here)
    rw [alone] at starts
    rw [packItems, pack]
    by_cases none : group = []
    · subst none
      exact starts
    have some_line : [sep].intercalate group ≠ [] :=
      fun empty => none ((intercalate_eq_nil_iff current).mp empty)
    have length : ([sep].intercalate (group ++ [item])).length =
        ([sep].intercalate group).length + 1 + item.length := by
      rw [intercalate_snoc sep none, length_append, length_append]
      rfl
    have full_iff : [sep].intercalate group ≠ [] ∧
          budget < ([sep].intercalate group).length + 1 + item.length ↔
        group.isEmpty = false ∧
          decide (([sep].intercalate (group ++ [item])).length ≤ budget) = false := by
      rw [length, decide_eq_false_iff_not, not_le, isEmpty_eq_false_iff]
      exact and_congr_left fun _ => iff_of_true some_line none
    by_cases full : group.isEmpty = false ∧
        decide (([sep].intercalate (group ++ [item])).length ≤ budget) = false
    · rw [if_pos full, if_pos (full_iff.mpr full), starts]
      rfl
    · rw [if_neg full, if_neg fun long => full (full_iff.mp long), if_neg some_line,
        ← intercalate_snoc sep none]
      exact ih later _ (forall_mem_append.mpr ⟨current, forall_mem_singleton.mpr here⟩)

theorem packItems_groups (sep : UInt8) (some_text : ∀ item ∈ items, item ≠ [])
    (short : ∀ item ∈ items, item.length ≤ budget) :
    ∃ groups : List (List Bytes),
      packItems budget [sep] [] items = groups.map [sep].intercalate ∧ groups.flatten = items ∧
      (∀ group ∈ groups, group ≠ [] ∧ ([sep].intercalate group).length ≤ budget) ∧
      groups.IsChain (fun group next => budget < ([sep].intercalate (group ++ next)).length) := by
  refine ⟨pack (fun group => ([sep].intercalate group).length ≤ budget) [] items,
    packItems_eq_pack some_text [] nofun, flatten_pack [] items, ?_, ?_⟩
  · intro group among
    have packs := fits_of_mem_pack (fun none => absurd rfl none) (fun item isItem => ?_) group among
    · exact packs.imp_right of_decide_eq_true
    · rw [intercalate_singleton]
      exact decide_eq_true (short item isItem)
  · refine (isChain_pack [] items).imp fun group next => ?_
    rintro ⟨item, rest, rfl, full⟩
    have more : ([sep].intercalate (group ++ [item])).length ≤
        ([sep].intercalate (group ++ item :: rest)).length :=
      length_intercalate_le (Sublist.append_left (by simp) group)
    exact (not_le.mp (of_decide_eq_false full)).trans_le more

/-- The head of a line with a trailing text. -/
theorem numericLine_head (serverName : Bytes) (code : ℕ) (target : Bytes) (middle : List Middle) :
    ∃ room, numericLine serverName code target middle (some []) =
      numericHead serverName code target ++
        ((fitted room middle).flatMap fun text => byte ' ' :: text) ++ ascii " :" := by
  have nothing : ∀ maxBytes, truncateOnCharBoundary [] maxBytes = [] :=
    fun _ => truncateOnCharBoundary_eq_self (Nat.zero_le _)
  refine ⟨wireBudget - 2 - (numericHead serverName code target).length, ?_⟩
  simp only [numericLine, Option.isSome_some, if_true, nothing, append_nil, appendMiddles_eq]

/-- The items of a list, none empty, none with the separator in it and each with
room behind the head, are on its lines as they are: the trailing texts split into
them, each line fits, and the items of two neighbouring lines do not fit on one.
Where the head is one of a numeric that parses, so is each line. -/
theorem numeric_list_keeps_items (serverName : Bytes) (code : ℕ) (target : Bytes)
    (middle : List Middle) (items : List Bytes) (sep : UInt8)
    (some_text : ∀ item ∈ items, item ≠ []) (whole : ∀ item ∈ items, sep ∉ item)
    (fits : ∀ item ∈ items, numericHeadLen serverName code target middle + item.length ≤ 510) :
    ∃ groups : List (List Bytes),
      numericListLines serverName code target middle items [sep] = groups.map (fun group =>
        numericLine serverName code target middle (some []) ++ [sep].intercalate group) ∧
      (∀ line ∈ numericListLines serverName code target middle items [sep], line.length ≤ 510) ∧
      (groups.flatMap fun group => ([sep].intercalate group).splitOn sep) = items ∧
      groups.IsChain (fun group next =>
        510 < numericHeadLen serverName code target middle +
          ([sep].intercalate (group ++ next)).length) ∧
      ∀ source, parseSource serverName = .ok source → standsAlone serverName = true →
        standsAlone target = true → code < 1000 → sep ∉ [13, 10, 0] →
        (∀ item ∈ items, item.Disjoint [13, 10, 0]) →
        ∃ written, ∀ group ∈ groups,
          Message.parse (numericLine serverName code target middle (some []) ++
            [sep].intercalate group) = .ok
              { tags := []
                source := some source
                command := codeStr code
                params := target :: (written ++ [[sep].intercalate group])
                hasTrailing := true } := by
  have most : maxLineLen = 512 := rfl
  obtain ⟨budget, isBudget⟩ : ∃ budget,
      max (maxLineLen - (numericHeadLen serverName code target middle + 2)) 1 = budget := ⟨_, rfl⟩
  have room : ∀ item ∈ items,
      budget = 510 - numericHeadLen serverName code target middle ∧ item.length ≤ budget := by
    intro item among
    have long := length_pos_of_ne_nil (some_text item among)
    have short := fits item among
    omega
  obtain ⟨groups, texts, all, each, chain⟩ :=
    packItems_groups sep some_text fun item among => (room item among).2
  have held : ∀ {group item}, group ∈ groups → item ∈ group → item ∈ items := by
    intro group item isGroup isItem
    rw [← all]
    exact mem_flatten.mpr ⟨group, isGroup, isItem⟩
  have within : ∀ group ∈ groups,
      numericHeadLen serverName code target middle + ([sep].intercalate group).length ≤ 510 := by
    intro group among
    obtain ⟨item, isItem⟩ := exists_mem_of_ne_nil group (each group among).1
    have short := (each group among).2
    have head := fits item (held among isItem)
    have isBudget := (room item (held among isItem)).1
    omega
  have lines : numericListLines serverName code target middle items [sep] = groups.map (fun group =>
      numericLine serverName code target middle (some []) ++ [sep].intercalate group) := by
    rw [numericListLines, isBudget, texts, map_map]
    refine map_congr_left fun group among => ?_
    have short := within group among
    rw [Function.comp_apply, numericLine_some, truncateOnCharBoundary_eq_self (by omega)]
  refine ⟨groups, lines, ?_, ?_, ?_, ?_⟩
  · rw [lines]
    refine forall_mem_map.mpr fun group among => ?_
    rw [length_append]
    exact within group among
  · calc (groups.flatMap fun group => ([sep].intercalate group).splitOn sep)
        = groups.flatMap id := flatMap_congr fun group among =>
          splitOn_intercalate _ (fun item isItem => whole item (held among isItem)) (each group among).1
      _ = items := by rw [flatMap_id, all]
  · exact chain.imp fun group next long => by omega
  · intro source named server nick short noBreak clean
    obtain ⟨room, head⟩ := numericLine_head serverName code target middle
    refine ⟨fitted room middle, fun group among => ?_⟩
    have cleanText : ∀ text ∈ some ([sep].intercalate group), text.Disjoint illegal := by
      rintro _ ⟨⟩ b inText bad
      rcases mem_intercalate inText with rfl | ⟨item, isItem, inItem⟩
      · exact noBreak bad
      · exact clean item (held among isItem) inItem bad
    have read := (wellFormed_numericMessage named server nick short
      (fitted_standsAlone room middle) cleanText).parse_render
    rw [render_numericMessage named] at read
    rw [head, append_assoc]
    exact read

theorem numeric_list_keeps_items_names :
    numericListLines (ascii "s") 353 (ascii "t") [.own ⟨ascii "=", by decide⟩, .own ⟨ascii "#m", by decide⟩]
        [ascii "@a", ascii "b"] (ascii " ") = [ascii ":s 353 t = #m :@a b"] ∧
      ∃ groups : List (List Bytes),
        (groups.flatMap fun group => ([byte ' '].intercalate group).splitOn (byte ' ')) =
          [ascii "@a", ascii "b"] := by
  obtain ⟨groups, _, _, split, _⟩ := numeric_list_keeps_items (ascii "s") 353 (ascii "t")
    [.own ⟨ascii "=", by decide⟩, .own ⟨ascii "#m", by decide⟩] [ascii "@a", ascii "b"] (byte ' ')
    (by decide) (by decide) (by decide +kernel)
  exact ⟨by decide +kernel, groups, split⟩

/-- A separator of two bytes is counted as one, and the last item is cut. -/
theorem wide_separator_cuts :
    (∀ item ∈ [replicate 400 (byte 'x'), replicate 99 (byte 'y')],
      numericHeadLen (ascii "s") 1 (ascii "t") [] + item.length ≤ 510) ∧
    numericListLines (ascii "s") 1 (ascii "t") []
        [replicate 400 (byte 'x'), replicate 99 (byte 'y')] [0xC2, 0xB7] =
      [ascii ":s 001 t :" ++ replicate 400 (byte 'x') ++ [0xC2, 0xB7] ++
        replicate 98 (byte 'y')] := by
  decide +kernel

end

end E6irc
