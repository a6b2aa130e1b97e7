import E6irc.Core.Cloak

/-!
# The case variants of a mask

A list of masks holds one entry of each `MaskKey`, and two masks have one key when
their folded texts are equal.  Every step of `MaskShape.parse` looks for a sign that
has no other case, or reads an address, so it commutes with folding; what is left of
a mask is then compared folded.
-/

namespace E6irc

open Base MaskShape

namespace MaskShape

section Fold

variable {casemap : CaseMapping} {sign : UInt8} (isSign : sign ∈ ascii "*?@$/:")
include isSign

attribute [local simp] CaseMapping.casefold

theorem splitOnce_casefold (text : Bytes) : splitOnce sign (casemap.casefold text) =
    (splitOnce sign text).map (Prod.map casemap.casefold casemap.casefold) := by
  have fixed {b : UInt8} : casemap.lower b = sign ↔ b = sign := CaseMapping.lower_eq_sign isSign
  refine splitOnce_hom (fun front after => ?_) (fun absent => ?_) text
  · simp [fixed.mpr rfl]
  · simpa [fixed] using absent

theorem rsplitOnce_casefold (text : Bytes) : rsplitOnce sign (casemap.casefold text) =
    (rsplitOnce sign text).map (Prod.map casemap.casefold casemap.casefold) := by
  have reversed : (casemap.casefold text).reverse = casemap.casefold text.reverse :=
    List.map_reverse.symm
  rw [rsplitOnce, rsplitOnce, reversed, splitOnce_casefold isSign]
  cases splitOnce sign text.reverse with
  | none => rfl
  | some sides => simp

theorem stripFirst_casefold (text : Bytes) : stripFirst sign (casemap.casefold text) =
    (stripFirst sign text).map casemap.casefold := by
  have fixed {b : UInt8} : casemap.lower b = sign ↔ b = sign := CaseMapping.lower_eq_sign isSign
  cases text with
  | nil => rfl
  | cons b text => simp [stripFirst, fixed, apply_ite (Option.map _)]

end Fold

variable {ipnet : Ipnet} {casemap : CaseMapping} {mask other : Bytes} {shape variant : MaskShape}

/-- A glob is read by its folded text. -/
theorem matches_fold (same : casemap.casefold mask = casemap.casefold other) :
    Mask.matches casemap mask = Mask.matches casemap other := by
  funext text
  rw [Mask.matches, same, Mask.matches]

/-- The case variants of an extended ban agree on its `~`, which is no case of a type
letter. -/
theorem matches_of_parseExtban (same : casemap.casefold mask = casemap.casefold other)
    (parsed : parseExtban mask = .ok shape) (again : parseExtban other = .ok variant)
    (display shown : Bytes) (subject : MaskSubject) :
    shape.matches ipnet casemap display subject = variant.matches ipnet casemap shown subject := by
  have apart : ∀ kind, toAsciiLowercase kind ∈ extbanTypes →
      casemap.lower kind ≠ casemap.lower (byte '~') := by
    cases casemap <;> decide +kernel
  obtain ⟨negated, pattern, rfl, -, kind, known, rfl⟩ := parseExtban_eq_ok parsed
  obtain ⟨negates, glob, rfl, -, letter, type, rfl⟩ := parseExtban_eq_ok again
  obtain rfl : negated = negates := by
    cases negated <;> cases negates
    · rfl
    · exact absurd (List.cons.inj same).1 (apart kind known)
    · exact absurd (List.cons.inj same).1.symm (apart letter type)
    · rfl
  simp only [CaseMapping.casefold, List.map_append, List.append_cancel_left_eq, List.map_cons,
    List.cons.injEq] at same
  cases pattern <;> cases glob
  · rfl
  · cases same.2
  · cases same.2
  have alike := matches_fold (List.cons.inj same.2).2
  unfold MaskShape.matches
  cases subject.account with
  | none => rfl
  | some name => simp only [alike]

section Network

variable (caseless : ∀ text, ipnet.parse (casemap.casefold text) = ipnet.parse text)
include caseless

theorem hostNet_casefold (host : Bytes) :
    hostNet ipnet (casemap.casefold host) = hostNet ipnet host := by
  simp only [hostNet, splitOnce_casefold (by decide : byte '/' ∈ ascii "*?@$/:"), caseless,
    IpAddr.parse_casefold]
  cases splitOnce (byte '/') host with
  | none => rfl
  | some sides => simp only [Option.map_some, Prod.map, IpAddr.parse_casefold]

/-- Those of another mask have one network, behind heads that are case variants. -/
theorem matches_of_hostNet {head front : Option Bytes} {host back : Bytes}
    (same : casemap.casefold mask = casemap.casefold other)
    (heads : head.map casemap.casefold = front.map casemap.casefold)
    (hosts : casemap.casefold host = casemap.casefold back)
    (parsed : (hostNet ipnet host).map (fun net => net.elim glob (cidr head)) = .ok shape)
    (again : (hostNet ipnet back).map (fun net => net.elim glob (cidr front)) = .ok variant)
    (subject : MaskSubject) :
    shape.matches ipnet casemap mask subject = variant.matches ipnet casemap other subject := by
  rw [← hostNet_casefold caseless, ← hosts, hostNet_casefold caseless] at again
  obtain ⟨net, found, rfl⟩ := map_eq_ok parsed
  rw [found] at again
  cases again
  cases net with
  | none => simp only [Option.elim_none, MaskShape.matches, matches_fold same]
  | some net =>
    cases head <;> cases front
    · simp only [Option.elim_some, MaskShape.matches, matches_fold same]
    · cases heads
    · cases heads
    · simp only [Option.elim_some, MaskShape.matches, matches_fold same, Option.all_some,
        matches_fold (Option.some.inj heads)]

theorem matches_of_casefold (same : casemap.casefold mask = casemap.casefold other)
    (parsed : parse ipnet mask = .ok shape) (again : parse ipnet other = .ok variant)
    (subject : MaskSubject) :
    shape.matches ipnet casemap mask subject = variant.matches ipnet casemap other subject := by
  have dollar := congrArg (stripFirst (byte '$')) same
  rw [stripFirst_casefold (by decide), stripFirst_casefold (by decide)] at dollar
  have split := congrArg (rsplitOnce (byte '@')) same
  rw [rsplitOnce_casefold (by decide), rsplitOnce_casefold (by decide)] at split
  unfold parse at parsed again
  cases first : stripFirst (byte '$') mask <;> cases second : stripFirst (byte '$') other <;>
    rw [first] at parsed dollar <;> rw [second] at again dollar
  · cases one : rsplitOnce (byte '@') mask <;> cases two : rsplitOnce (byte '@') other <;>
      rw [one] at parsed split <;> rw [two] at again split
    · exact matches_of_hostNet caseless same rfl same parsed again subject
    · cases split
    · cases split
    rename_i sides parts
    obtain ⟨heads, hosts⟩ := Prod.mk.inj (Option.some.inj split)
    have heads : (some sides.1).map casemap.casefold = (some parts.1).map casemap.casefold :=
      congrArg some heads
    exact matches_of_hostNet caseless same heads hosts parsed again subject
  · cases dollar
  · cases dollar
  · exact matches_of_parseExtban (Option.some.inj dollar) parsed again ..

end Network

end MaskShape

/-- Two accepted masks of one key match the same subjects: a case variant can stand
for an entry of a list. -/
theorem equal_keys_match_alike (ipnet : Ipnet) (casemap : CaseMapping)
    (caseless : ∀ text, ipnet.parse (casemap.casefold text) = ipnet.parse text)
    {mask other : MaskKey} {shape variant : MaskShape}
    (parsed : parse ipnet mask.display = .ok shape)
    (again : parse ipnet other.display = .ok variant)
    (same : mask.folded casemap = other.folded casemap) (subject : MaskSubject) :
    mask.matches ipnet casemap subject = other.matches ipnet casemap subject := by
  rw [MaskKey.matches_of_parse parsed, MaskKey.matches_of_parse again]
  exact matches_of_casefold caseless same parsed again subject

theorem Ipnet.cidr_casefold (casemap : CaseMapping) (text : Bytes) :
    cidr.parse (casemap.casefold text) = cidr.parse text := by
  have number {maxDigits bound : ℕ} (bits : Bytes) :
      (IpAddr.readNumber 10 maxDigits bound true).parseWith (casemap.casefold bits) =
        (IpAddr.readNumber 10 maxDigits bound true).parseWith bits :=
    Reader.parseWith_map (IpAddr.unread_lower casemap).readNumber bits
  simp only [cidr, parseCidr, splitOnce_casefold (by decide : byte '/' ∈ ascii "*?@$/:")]
  cases splitOnce (byte '/') text with
  | none => rfl
  | some sides => simp [IpAddr.parse_casefold, number]

theorem equal_keys_match_alike_but_bob :
    let subject := MaskSubject.new (ascii "eve!e@host") none (some (ascii "eve"))
    MaskKey.matches .cidr .rfc1459 ⟨ascii "$~A:Bob*"⟩ subject =
      MaskKey.matches .cidr .rfc1459 ⟨ascii "$~a:bob*"⟩ subject := by
  have parsed : parse .cidr (ascii "$~A:Bob*") =
      .ok (.account true (some (ascii "Bob*"))) := by decide
  have again : parse .cidr (ascii "$~a:bob*") =
      .ok (.account true (some (ascii "bob*"))) := by decide
  exact equal_keys_match_alike .cidr .rfc1459 (Ipnet.cidr_casefold _) parsed again (by decide) _

end E6irc
