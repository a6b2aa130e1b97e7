import E6irc.Bouncer.Memberships

/-!
# What an upstream advertises

The 005 tokens of an upstream are kept as it sent them
(`UpstreamFeatures::observe_isupport`), and `PREFIX` among them is read into two
lists: the membership modes and the symbols that show them.  A symbol of a 353 entry
is looked up among the symbols and the modes are indexed by its place there.
Nothing makes the lists equally long, so a symbol that stands past the modes ends the
driver of the network (`Prefixes.overruns`).  It is the only way that following a
line or listing the members of a channel can panic.
-/

namespace E6irc.Bouncer

open Base Prefixes ChannelViews

/-! ## Tokens -/

def maxUpstreamIsupportTokens : ℕ := 128

def maxUpstreamIsupportTokenLen : ℕ := 200

/-- The name of a token. -/
def isupportKey (token : Bytes) : Bytes :=
  (token.splitOn (byte '=')).headD token

def observeToken (isupport : List Bytes) (token : Bytes) : List Bytes :=
  if token = [] ∨ token.head? = some (byte ':') ∨ maxUpstreamIsupportTokenLen < token.length then
    isupport
  else
    match stripFirst (byte '-') token with
    | some withdrawn => isupport.filter fun kept => isupportKey kept ≠ withdrawn
    | none =>
      match isupport.findIdx? fun kept => isupportKey kept = isupportKey token with
      | some place => isupport.set place token
      | none =>
        if isupport.length < maxUpstreamIsupportTokens then isupport ++ [token] else isupport

def observeIsupport (isupport tokens : List Bytes) : List Bytes :=
  tokens.foldl observeToken isupport

/-! ## Telling the members of a channel -/

/-- `&text[..at]`. -/
def sliceTo (text : Bytes) (cut : ℕ) : Except Panic Bytes :=
  if cut ≤ text.length ∧ (cut = 0 ∨ isCharBoundary text cut = true) then .ok (text.take cut)
  else .error .indexOutOfBounds

/-- `core::fit_trailing`: as much of the text as the line has room for. -/
def fitTrailing (head text : Bytes) : Except Panic Bytes :=
  sliceTo text (floorCharBoundary text (510 - head.length))

/-- The symbol of the most powerful of `modes`, or nothing. -/
def Prefixes.symbol (p : Prefixes) (modes : List Char8) : Bytes :=
  (((p.modes.zip p.symbols).find? fun pair => modes.contains pair.1).map Prod.snd).getD []

/-- One more member on the last of the lines, or on a new one. -/
def addName (head : Bytes) (lines : List Bytes × Bytes) (member : Bytes) : List Bytes × Bytes :=
  let (done, line) :=
    if head.length < lines.2.length ∧ maxLineLen < lines.2.length + 1 + member.length + 2 then
      (lines.1 ++ [lines.2], head)
    else lines
  (done, (if head.length < line.length then line ++ ascii " " else line) ++ member)

namespace ChannelView

def namesReply (view : ChannelView) (server nick channel : Bytes) (features : List Bytes) :
    Except Panic (Option (List Bytes)) :=
  match view.members with
  | .receiving _ | .unknown => .ok none
  | .complete members => do
    let shown := members.entries.map fun entry =>
      (entry.1, (of features).symbol entry.2.modes ++ entry.2.nick)
    let sorted := shown.mergeSort fun first last => first.1 ≤ last.1
    let head := ascii ":" ++ server ++ ascii " 353 " ++ nick ++ ascii " " ++ view.symbol ++ ascii " " ++
      channel ++ ascii " :"
    let (done, line) := (sorted.map Prod.snd).foldl (addName head) ([], head)
    let lines := if head.length < line.length then done ++ [line] else done
    let last := ascii ":" ++ server ++ ascii " 366 " ++ nick ++ ascii " " ++ channel ++ ascii " :"
    let said ← fitTrailing last (ascii "End of /NAMES list")
    return some (lines ++ [last ++ said])

end ChannelView

/-! ## Slices -/

/-- A cut at the boundary found is a slice. -/
theorem fitTrailing_eq (head text : Bytes) :
    fitTrailing head text = .ok (truncateOnCharBoundary text (510 - head.length)) :=
  if_pos ⟨floorCharBoundary_le_length _ _, boundary_floorCharBoundary _ _⟩

theorem namesReply_ok (view : ChannelView) (server nick channel : Bytes) (features : List Bytes) :
    ∃ reply, view.namesReply server nick channel features = .ok reply := by
  unfold ChannelView.namesReply
  split
  · exact ⟨none, rfl⟩
  · exact ⟨none, rfl⟩
  · simp only [fitTrailing_eq]
    exact ⟨_, rfl⟩

/-! ## Symbols -/

/-- The entry begins with symbols of which one stands past the modes. -/
def Prefixes.overruns (p : Prefixes) (entry : Bytes) : Bool :=
  ((chars entry).takeWhile (p.symbols.contains ·)).any fun symbol =>
    p.modes.length ≤ p.symbols.idxOf symbol

theorem Prefixes.modeOf_ok_iff (p : Prefixes) (symbol : Char8) :
    (∃ mode, p.modeOf symbol = .ok mode) ↔ ¬ p.modes.length ≤ p.symbols.idxOf symbol := by
  rw [← List.getElem?_eq_none_iff, modeOf]
  cases p.modes[p.symbols.idxOf symbol]? with
  | none => exact iff_of_false (fun ⟨_, ok⟩ => nomatch ok) fun apart => apart rfl
  | some mode => exact iff_of_true ⟨mode, rfl⟩ nofun

theorem Prefixes.split_ok_iff (p : Prefixes) (entry : Bytes) :
    (∃ parts, p.split entry = .ok parts) ↔ p.overruns entry = false := by
  have traversal : (∃ parts, p.split entry = .ok parts) ↔
      ∃ modes, ((chars entry).takeWhile (p.symbols.contains ·)).mapM p.modeOf = .ok modes := by
    constructor
    · intro ⟨parts, ok⟩
      obtain ⟨modes, all, -⟩ := bind_eq_ok ok
      exact ⟨modes, all⟩
    · intro ⟨modes, all⟩
      rw [split, all]
      exact ⟨_, rfl⟩
  rw [traversal, mapM_ok_iff, overruns, List.any_eq_false]
  simp only [p.modeOf_ok_iff, decide_eq_true_iff]

/-! ## Lines -/

section

variable {views after : ChannelViews} {names : Client.NetworkNames} {channel : Bytes}

theorem sub_ne_index {a b : ℕ} {build : ℕ → ChannelViews} :
    (checkedSub a b).map build ≠ .error .indexOutOfBounds := by
  unfold checkedSub
  split <;> nofun

theorem addMember_ne_index (nick : Bytes) (modes : List Char8) :
    views.addMember names nick modes channel ≠ .error .indexOutOfBounds := by
  unfold addMember
  split
  · nofun
  split
  · nofun
  split
  · nofun
  split
  · exact sub_ne_index
  · nofun

theorem removeMember_ne_index (nick : Bytes) :
    views.removeMember names nick channel ≠ .error .indexOutOfBounds := by
  unfold removeMember
  split
  · nofun
  split
  · exact sub_ne_index
  · nofun

/-- A result that is neither panic is there. -/
theorem ok_of_ne {result : Except Panic ChannelViews} (no_underflow : result ≠ .error .underflow)
    (in_bounds : result ≠ .error .indexOutOfBounds) : ∃ after, result = .ok after := by
  match result with
  | .ok after => exact ⟨after, rfl⟩
  | .error .underflow => exact absurd rfl no_underflow
  | .error .indexOutOfBounds => exact absurd rfl in_bounds

theorem observe_ne_index {message : Message} (features : List Bytes) (own : Bytes)
    (other : ¬ (toAsciiUppercase message.command = ascii "353" ∧ 3 ≤ message.params.length)) :
    views.observe message names features own ≠ .error .indexOutOfBounds := by
  unfold observe
  dsimp only
  split
  · split
    · split
      · nofun
      · exact foldlM_ne_error (fun _ _ => addMember_ne_index _ _) _ _
    · nofun
  split
  · split
    · exact foldlM_ne_error (fun _ _ => removeMember_ne_index _) _ _
    · nofun
  split
  · refine foldlM_ne_error (fun _ _ => ?_) _ _
    dsimp only
    split
    · nofun
    · exact removeMember_ne_index _
  split
  · split
    · exact sub_ne_index
    · nofun
  split
  · split <;> nofun
  split
  · split <;> nofun
  split
  · split <;> nofun
  split
  · split <;> nofun
  split
  · split <;> nofun
  · nofun

/-- The entries of a 353 are read up to one that overruns the modes. -/
theorem entries_ok_iff (sound : views.Sound) (features entries : List Bytes) :
    (∃ after, entries.foldlM (fun views entry => do
      let (nick, modes) ← (of features).split entry
      if nick = [] then .ok views else views.addMember names nick modes channel) views = .ok after) ↔
      ∀ entry ∈ entries, (of features).overruns entry = false := by
  induction entries generalizing views with
  | nil => exact iff_of_true ⟨views, rfl⟩ nofun
  | cons entry entries ih =>
    rw [List.forall_mem_cons, ← split_ok_iff]
    simp only [List.foldlM_cons]
    cases divided : (of features).split entry with
    | error panic =>
      refine iff_of_false (fun ⟨_, ok⟩ => nomatch ok) fun both => ?_
      obtain ⟨parts, ok⟩ := both.1
      cases ok
    | ok parts =>
      obtain ⟨nick, modes⟩ := parts
      have told : Steady views
          (if nick = [] then .ok views else views.addMember names nick modes channel) := by
        split
        · exact sound.steady_self
        · exact steady_addMember sound _ _ _
      have inBounds : (if nick = [] then .ok views
          else views.addMember names nick modes channel) ≠ .error .indexOutOfBounds := by
        split
        · nofun
        · exact addMember_ne_index _ _
      obtain ⟨mid, reached⟩ := ok_of_ne told.no_underflow inBounds
      have rest := ih (told.sound mid reached)
      simp only [bind, Except.bind, reached] at rest ⊢
      rw [rest]
      exact (and_iff_right ⟨_, rfl⟩).symm

theorem observeNames_ok_iff (sound : views.Sound) (features : List Bytes) (symbol : Option Char8)
    (entries : List Bytes) :
    (∃ after, views.observeNames names features channel symbol entries = .ok after) ↔
      ((views.channels.lookup channel).isSome = true →
        ∀ entry ∈ entries, (of features).overruns entry = false) := by
  unfold observeNames
  cases held : views.channels.lookup channel with
  | none => exact iff_of_true ⟨views, rfl⟩ nofun
  | some view =>
    rw [Option.isSome_some]
    dsimp only
    have shown : Steady views (.ok (views.changeView channel fun view =>
        { view with symbol := symbol.getD view.symbol })) :=
      steady_changeView sound fun view _ => rfl
    have here : (views.changeView channel fun view =>
        { view with symbol := symbol.getD view.symbol }).channels.lookup channel =
        some { view with symbol := symbol.getD view.symbol } := by
      simp only [changeView, held, AList.lookup_insert]
    generalize views.changeView channel (fun view =>
      { view with symbol := symbol.getD view.symbol }) = mid at shown here
    have midSound := shown.sound mid rfl
    cases kept : view.members with
    | complete members =>
      have begun : Steady mid ((checkedSub mid.memberships members.entries.length).map
          fun memberships => { mid.changeView channel fun view =>
            { view with members := .receiving ∅ } with memberships }) := by
        refine steady_cutView midSound here ?_
        rw [kept]
        exact Nat.zero_add _
      obtain ⟨fresh, emptied⟩ := ok_of_ne begun.no_underflow sub_ne_index
      simp only [emptied, forall_const]
      exact entries_ok_iff (begun.sound fresh emptied) features entries
    | receiving members | unknown =>
      simp only [forall_const]
      exact entries_ok_iff midSound features entries

/-- The line is a 353 of a followed channel with an entry that overruns the modes. -/
def ChannelViews.Overruns (views : ChannelViews) (message : Message) (names : Client.NetworkNames)
    (features : List Bytes) : Prop :=
  toAsciiUppercase message.command = ascii "353" ∧ 3 ≤ message.params.length ∧
    (views.channels.lookup (names.fold (message.params[message.params.length - 2]?.getD []))).isSome ∧
    ∃ entry ∈ ((message.params[message.params.length - 1]?.getD []).splitOn (byte ' ')).filter (· ≠ []),
      (of features).overruns entry = true

variable (views names) in
theorem observe_353 {message : Message} (isNames : toAsciiUppercase message.command = ascii "353")
    (enough : 3 ≤ message.params.length) (features : List Bytes) (own : Bytes) :
    ∃ symbol, views.observe message names features own =
      views.observeNames names features
        (names.fold (message.params[message.params.length - 2]?.getD [])) symbol
        (((message.params[message.params.length - 1]?.getD []).splitOn (byte ' ')).filter (· ≠ [])) := by
  have others : ascii "353" ≠ ascii "JOIN" ∧ ascii "353" ≠ ascii "PART" ∧
      ascii "353" ≠ ascii "KICK" ∧ ascii "353" ≠ ascii "QUIT" ∧ ascii "353" ≠ ascii "NICK" := by decide
  unfold observe
  dsimp only
  rw [isNames]
  simp only [others, false_and, if_false, enough, and_true, if_true]
  exact ⟨_, rfl⟩

/-- Following a line and telling the members of a channel end in no panic, exactly
unless the line is a 353 with a symbol that stands past the modes advertised. -/
theorem follows_lines_iff {es : List ViewEvent} (run : followed.Run System.anyStep es views)
    (advertised : List (List Bytes)) (message : Message) (names : Client.NetworkNames) (own : Bytes) :
    ((∃ after, views.observe message names (advertised.foldl observeIsupport []) own = .ok after) ∧
      ∀ (view : ChannelView) (server nick channel : Bytes), ∃ reply,
        view.namesReply server nick channel (advertised.foldl observeIsupport []) = .ok reply) ↔
      ¬ views.Overruns message names (advertised.foldl observeIsupport []) := by
  have sound := Sound.of_run run
  generalize advertised.foldl observeIsupport [] = features
  rw [and_iff_left fun view server nick channel => namesReply_ok view server nick channel features]
  by_cases isNames : toAsciiUppercase message.command = ascii "353" ∧ 3 ≤ message.params.length
  · obtain ⟨is353, enough⟩ := isNames
    obtain ⟨symbol, observed⟩ := observe_353 views names is353 enough features own
    rw [observed, observeNames_ok_iff sound, Overruns]
    simp only [is353, enough, true_and, not_and, not_exists, Bool.not_eq_true]
  · refine iff_of_true ?_ fun overruns => isNames ⟨overruns.1, overruns.2.1⟩
    exact ok_of_ne ((apply_counts sound (.observe message names features own)).1)
      (observe_ne_index features own isNames)

/-- A followed channel. -/
def inRoom : List ViewEvent := [.joined (ascii "#a")]

/-- The names of a channel with a voiced member. -/
def voicedNames : Message :=
  ⟨[], some ⟨ascii "srv", none, none⟩, ascii "353", [ascii "me", ascii "=", ascii "#a", ascii "+bob"],
    true⟩

theorem follows_lines_told : ∃ views, followed.Run System.anyStep inRoom views ∧
    ((∃ after, views.observe voicedNames .default
        ([[ascii "PREFIX=(ov)@+"]].foldl observeIsupport []) (ascii "me") = .ok after) ∧
      ∀ (view : ChannelView) (server nick channel : Bytes), ∃ reply,
        view.namesReply server nick channel
          ([[ascii "PREFIX=(ov)@+"]].foldl observeIsupport []) = .ok reply) := by
  obtain ⟨views, reached⟩ : ∃ views, followed.exec inRoom = some views :=
    Option.isSome_iff_exists.mp (by decide +kernel)
  have run := System.run_of_exec reached
  refine ⟨views, run, (follows_lines_iff run [[ascii "PREFIX=(ov)@+"]] voicedNames .default
    (ascii "me")).mpr fun overruns => ?_⟩
  obtain ⟨-, -, -, entry, among, past⟩ := overruns
  have none_past : ∀ entry ∈ ((voicedNames.params[voicedNames.params.length - 1]?.getD []).splitOn
      (byte ' ')).filter (· ≠ []), (of ([[ascii "PREFIX=(ov)@+"]].foldl observeIsupport
        [])).overruns entry = false := by
    decide +kernel
  rw [none_past entry among] at past
  cases past

/-- One mode and two symbols: the second symbol ends the driver. -/
theorem symbol_past_modes :
    Message.parse (ascii ":srv 353 me = #a :+bob") = .ok voicedNames ∧
      ∃ views, followed.Run System.anyStep inRoom views ∧
        views.observe voicedNames .default
          ([[ascii "PREFIX=(o)@+"]].foldl observeIsupport []) (ascii "me") =
            .error .indexOutOfBounds := by
  refine ⟨by decide +kernel, ?_⟩
  have replay : (followed.exec inRoom).map (fun views =>
      match views.observe voicedNames .default
        ([[ascii "PREFIX=(o)@+"]].foldl observeIsupport []) (ascii "me") with
      | .error panic => some panic
      | .ok _ => none) = some (some .indexOutOfBounds) := by
    decide +kernel
  obtain ⟨views, reached, panics⟩ := System.exists_run replay
  refine ⟨views, reached, ?_⟩
  cases result : views.observe voicedNames .default
      ([[ascii "PREFIX=(o)@+"]].foldl observeIsupport []) (ascii "me") with
  | error panic =>
    rw [result] at panics
    cases panics
    rfl
  | ok after =>
    rw [result] at panics
    cases panics

end

end E6irc.Bouncer
