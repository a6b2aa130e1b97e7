import E6irc.Net.Address

/-!
# The address a request came from

`client_ip` of `e6irc-edge/src/address.rs`.  A request that a trusted proxy passed
on comes from the rightmost entry of its `X-Forwarded-For` headers that is not in a
trusted network: whatever is left of that entry is only what the client wrote.

The headers of a request are its *items*, in order: the entries of the values that
are text, and one item without text for each value that is not.  `client_ip` leaves
the items without text out before it looks for the client.
-/

namespace E6irc.Forwarded

open Base Reader List

/-! ## One entry -/

/-- Whitespace of an ASCII text. -/
def isWhitespace (b : UInt8) : Bool :=
  (9 ≤ b && b ≤ 13) || b == byte ' '

def trim (text : Bytes) : Bytes :=
  (text.dropWhile isWhitespace).rdropWhile isWhitespace

/-- A number of any number of digits, below `bound`. -/
def readDecimal (bound : ℕ) : Reader UInt8 ℕ := fun text =>
  IpAddr.readNumber 10 text.length bound true text

def readPort : Reader UInt8 ℕ := do
  given (byte ':')
  readDecimal (2 ^ 16)

def readScopeId : Reader UInt8 ℕ := do
  given (byte '%')
  readDecimal (2 ^ 32)

/-- The address of an IPv4 socket address. -/
def readSocketAddrV4 : Reader UInt8 IpAddr := do
  let ip ← IpAddr.readIpv4
  let _ ← readPort
  pure (.v4 ip)

/-- The address of an IPv6 socket address. -/
def readSocketAddrV6 : Reader UInt8 IpAddr := do
  given (byte '[')
  let ip ← IpAddr.readIpv6
  let _ ← attempt readScopeId
  given (byte ']')
  let _ ← readPort
  pure (.v6 ip)

def readSocketAddr : Reader UInt8 IpAddr := do
  match ← attempt readSocketAddrV4 with
  | some ip => pure ip
  | none => readSocketAddrV6

/-- An address, an address with a port, or an address in brackets. -/
def parseForwardedIp (entry : Bytes) : Option IpAddr :=
  let s := trim entry
  let address :=
    match IpAddr.parse s with
    | some ip => some ip
    | none =>
      match readSocketAddr.parseWith s with
      | some ip => some ip
      | none => do
        let s ← stripFirst (byte '[') s
        let inner ← stripLast (byte ']') s
        IpAddr.parse inner
  address.map IpAddr.toCanonical

theorem parseForwardedIp_of_trim_eq_nil {entry : Bytes} (blank : trim entry = []) :
    parseForwardedIp entry = none := by
  simp only [parseForwardedIp, blank]
  decide

/-! ## The headers -/

structure UnusableForwardedFor where
  proxy : IpAddr
  entry : Bytes
deriving DecidableEq, Repr

/-- Visible ASCII and tabs: what `HeaderValue::to_str` takes for text. -/
def isText (value : Bytes) : Bool :=
  value.all fun b => (32 ≤ b && b < 127) || b == 9

def toStr (value : Bytes) : Option Bytes :=
  if isText value then some value else none

section ClientIp

variable (ipnet : Ipnet) (trusted : List IpNet)

def isTrusted (address : IpAddr) : Bool :=
  trusted.any fun net => ipnet.contains net address

/-- The first client address of the entries, which are given from the right. -/
def scan (peer : IpAddr) : List Bytes → Except UnusableForwardedFor IpAddr
  | [] => .ok peer
  | part :: rest =>
    match parseForwardedIp part with
    | none => .error { proxy := peer, entry := trim part }
    | some ip => if isTrusted ipnet trusted ip then scan peer rest else .ok ip

theorem scan_cons (peer : IpAddr) (part : Bytes) (rest : List Bytes) :
    scan ipnet trusted peer (part :: rest) =
      match parseForwardedIp part with
      | none => .error { proxy := peer, entry := trim part }
      | some ip => if isTrusted ipnet trusted ip then scan ipnet trusted peer rest else .ok ip := by
  exact rfl

def clientIp (peer : IpAddr) (values : List Bytes) : Except UnusableForwardedFor IpAddr :=
  let peer := peer.toCanonical
  if isTrusted ipnet trusted peer then
    let joined := [byte ','].intercalate (values.filterMap toStr)
    if trim joined = [] then .ok peer
    else scan ipnet trusted peer (joined.splitOn (byte ',')).reverse
  else .ok peer

end ClientIp

/-- What a value holds: its entries, or nothing that can be read. -/
def itemsOf (value : Bytes) : List (Option Bytes) :=
  match toStr value with
  | some text => (text.splitOn (byte ',')).map some
  | none => [none]

/-- The items of the headers of a request. -/
def items (values : List Bytes) : List (Option Bytes) :=
  values.flatMap itemsOf

theorem filterMap_items (values : List Bytes) :
    (items values).filterMap id = (values.filterMap toStr).flatMap (·.splitOn (byte ',')) := by
  induction values with
  | nil => rfl
  | cons value values ih =>
    rw [items, flatMap_cons, filterMap_append, ← items, ih, itemsOf]
    cases read : toStr value with
    | some text => simp [read]
    | none => simp [read]

/-! ## The entry that is found -/

section Found

variable {ipnet : Ipnet} {trusted : List IpNet} {peer ip : IpAddr}

/-- The entry is an address in a trusted network. -/
def Vouched (ipnet : Ipnet) (trusted : List IpNet) (entry : Bytes) : Prop :=
  ∃ ip, parseForwardedIp entry = some ip ∧ isTrusted ipnet trusted ip = true

/-- The entry is the address `ip`, which is in no trusted network. -/
def Client (ipnet : Ipnet) (trusted : List IpNet) (entry : Bytes) (ip : IpAddr) : Prop :=
  parseForwardedIp entry = some ip ∧ isTrusted ipnet trusted ip = false

theorem Client.not_vouched {entry : Bytes} (client : Client ipnet trusted entry ip) :
    ¬ Vouched ipnet trusted entry := by
  rintro ⟨ip', same, inside⟩
  rw [client.1, Option.some.injEq] at same
  rw [← same, client.2] at inside
  cases inside

theorem scan_of_vouched {right : List Bytes} (vouched : ∀ part ∈ right, Vouched ipnet trusted part)
    (rest : List Bytes) :
    scan ipnet trusted peer (right ++ rest) = scan ipnet trusted peer rest := by
  induction right with
  | nil => rfl
  | cons part right ih =>
    obtain ⟨⟨ip, read, inside⟩, vouched⟩ := forall_mem_cons.mp vouched
    simp only [cons_append, scan_cons, read, inside, if_true]
    exact ih vouched

theorem scan_of_client {entry : Bytes} (client : Client ipnet trusted entry ip)
    (left : List Bytes) : scan ipnet trusted peer (entry :: left) = .ok ip := by
  rw [scan_cons, client.1]
  dsimp only
  rw [if_neg (by simp [client.2])]

/-- An address other than the peer's is that of the first client among the parts. -/
theorem scan_eq_ok {parts : List Bytes} (found : scan ipnet trusted peer parts = .ok ip)
    (other : ip ≠ peer) :
    ∃ right entry left, parts = right ++ entry :: left ∧
      (∀ part ∈ right, Vouched ipnet trusted part) ∧ Client ipnet trusted entry ip := by
  induction parts with
  | nil => exact absurd (Except.ok.inj found).symm other
  | cons part parts ih =>
    rw [scan_cons] at found
    cases read : parseForwardedIp part with
    | none =>
      rw [read] at found
      cases found
    | some ip' =>
      rw [read] at found
      dsimp only at found
      cases inside : isTrusted ipnet trusted ip' with
      | true =>
        rw [if_pos inside] at found
        obtain ⟨right, entry, left, rfl, vouched, client⟩ := ih found
        refine ⟨part :: right, entry, left, rfl, ?_, client⟩
        exact forall_mem_cons.mpr ⟨⟨ip', read, inside⟩, vouched⟩
      | false =>
        rw [if_neg (by simp [inside]), Except.ok.injEq] at found
        exact ⟨[], part, parts, rfl, nofun, found ▸ ⟨read, inside⟩⟩

theorem isWhitespace_of_trim_eq_nil {text : Bytes} (blank : trim text = []) :
    ∀ b ∈ text, isWhitespace b = true := by
  intro b mem
  rw [← takeWhile_append_dropWhile (p := isWhitespace) (l := text)] at mem
  rcases mem_append.mp mem with leading | other
  · exact mem_takeWhile_imp leading
  · exact rdropWhile_eq_nil_iff.mp blank b other

/-- No entry of a blank header is an address. -/
theorem parseForwardedIp_of_blank {texts : List Bytes} {entry : Bytes}
    (blank : trim ([byte ','].intercalate texts) = [])
    (isEntry : entry ∈ texts.flatMap (·.splitOn (byte ','))) : parseForwardedIp entry = none := by
  have some_text : texts ≠ [] := by
    rintro rfl
    cases isEntry
  have comma : byte ',' ∉ [byte ','].intercalate texts := fun mem =>
    absurd (isWhitespace_of_trim_eq_nil blank _ mem) (by decide)
  rw [← splitOn_intercalate_eq_flatMap _ some_text, splitOn_eq_singleton comma,
    mem_singleton] at isEntry
  exact parseForwardedIp_of_trim_eq_nil (isEntry ▸ blank)

/-- A client that a trusted peer named is searched for among the entries of all values. -/
theorem clientIp_eq_ok_iff_scan (trustedPeer : isTrusted ipnet trusted peer.toCanonical = true)
    (values : List Bytes) (other : ip ≠ peer.toCanonical) :
    clientIp ipnet trusted peer values = .ok ip ↔
      scan ipnet trusted peer.toCanonical ((items values).filterMap id).reverse = .ok ip := by
  rw [clientIp, if_pos trustedPeer, filterMap_items]
  generalize values.filterMap toStr = texts
  dsimp only
  split
  · rename_i blank
    refine iff_of_false (fun same => other (Except.ok.inj same).symm) fun found => ?_
    obtain ⟨right, entry, left, parts, -, client⟩ := scan_eq_ok found other
    have isEntry : entry ∈ texts.flatMap (·.splitOn (byte ',')) := by
      rw [← mem_reverse, parts]
      exact mem_append_right _ mem_cons_self
    rw [Client, parseForwardedIp_of_blank blank isEntry] at client
    cases client.1
  · rename_i written
    have some_text : texts ≠ [] := by
      rintro rfl
      exact written rfl
    rw [splitOn_intercalate_eq_flatMap _ some_text]

/-- The items that can be read are vouched for. -/
def Passed (ipnet : Ipnet) (trusted : List IpNet) (back : List (Option Bytes)) : Prop :=
  ∀ entry, some entry ∈ back → Vouched ipnet trusted entry

/-- A client is found if what can be read to the right of it is vouched for. -/
theorem clientIp_eq_ok_iff (trustedPeer : isTrusted ipnet trusted peer.toCanonical = true)
    (values : List Bytes) (other : ip ≠ peer.toCanonical) :
    clientIp ipnet trusted peer values = .ok ip ↔ ∃ front entry back,
      items values = front ++ some entry :: back ∧ Passed ipnet trusted back ∧
        Client ipnet trusted entry ip := by
  rw [clientIp_eq_ok_iff_scan trustedPeer values other]
  constructor
  · intro found
    obtain ⟨right, entry, left, parts, vouched, client⟩ := scan_eq_ok found other
    rw [reverse_eq_iff, reverse_append, reverse_cons, append_assoc,
      filterMap_eq_append_iff] at parts
    obtain ⟨front, rest, whole, -, parts⟩ := parts
    rw [singleton_append, filterMap_eq_cons_iff] at parts
    obtain ⟨between, _, back, rfl, -, rfl, readable⟩ := parts
    refine ⟨front ++ between, entry, back, by rw [whole, append_assoc], ?_, client⟩
    intro other isItem
    refine vouched other ?_
    rw [← mem_reverse, ← readable]
    exact mem_filterMap.mpr ⟨some other, isItem, rfl⟩
  · rintro ⟨front, entry, back, whole, passed, client⟩
    have parts : (items values).filterMap id = front.filterMap id ++ entry :: back.filterMap id := by
      simp [whole]
    rw [parts, reverse_append, reverse_cons, append_assoc, scan_of_vouched,
      singleton_append, scan_of_client client]
    intro part isPart
    rw [mem_reverse, mem_filterMap] at isPart
    obtain ⟨_, isItem, rfl⟩ := isPart
    exact passed part isItem

/-! ## What a proxy vouches for -/

variable (ipnet trusted peer) in
/-- An address other than the peer's is that of an entry with nothing to its right
but addresses in trusted networks, whatever stands to its left. -/
def FollowsChain (values : List Bytes) : Prop :=
  ∀ ip, ip ≠ peer.toCanonical → clientIp ipnet trusted peer values = .ok ip →
    ∃ front entry back, items values = front ++ some entry :: back ∧
      parseForwardedIp entry = some ip ∧
      (∀ item ∈ back, ∃ text, item = some text ∧ Vouched ipnet trusted text) ∧
      ∀ values' front', items values' = front' ++ some entry :: back →
        clientIp ipnet trusted peer values' = .ok ip

variable (ipnet trusted) in
/-- A value that is not text stands to the right of a client that is in no trusted
network, and everything there that is text is an address in one. -/
def Overlooks (values : List Bytes) : Prop :=
  ∃ front entry back ip, items values = front ++ some entry :: back ∧
    Client ipnet trusted entry ip ∧ Passed ipnet trusted back ∧ none ∈ back

theorem Client.ne_peer {entry : Bytes} (client : Client ipnet trusted entry ip)
    (trustedPeer : isTrusted ipnet trusted peer.toCanonical = true) : ip ≠ peer.toCanonical := by
  rintro rfl
  rw [client.2] at trustedPeer
  cases trustedPeer

/-- Of two entries, the one with an item without text to its right is the left one. -/
theorem mem_back_of_none_mem {front front' back back' : List (Option Bytes)} {entry entry' : Bytes}
    (whole : front ++ some entry :: back = front' ++ some entry' :: back')
    (unread : none ∈ back) (readable : none ∉ back') : some entry' ∈ back := by
  rcases append_eq_append_iff.mp whole with ⟨more, -, same⟩ | ⟨more, -, same⟩
  · rcases cons_eq_append_iff.mp same with ⟨-, same⟩ | ⟨more', -, rfl⟩
    · rw [(List.cons.inj same).2] at readable
      exact absurd unread readable
    · exact mem_append_right _ mem_cons_self
  · rcases cons_eq_append_iff.mp same with ⟨-, same⟩ | ⟨more', -, rfl⟩
    · rw [← (List.cons.inj same).2] at readable
      exact absurd unread readable
    · exact absurd (mem_append_right _ (mem_cons_of_mem _ unread)) readable

theorem follows_chain_iff (trustedPeer : isTrusted ipnet trusted peer.toCanonical = true)
    (values : List Bytes) :
    FollowsChain ipnet trusted peer values ↔ ¬ Overlooks ipnet trusted values := by
  constructor
  · rintro follows ⟨front, entry, back, ip, whole, client, passed, unread⟩
    have other := client.ne_peer trustedPeer
    have found : clientIp ipnet trusted peer values = .ok ip :=
      (clientIp_eq_ok_iff trustedPeer values other).mpr ⟨front, entry, back, whole, passed, client⟩
    obtain ⟨front', entry', back', whole', read, vouched, -⟩ := follows ip other found
    have readable : none ∉ back' := by
      intro isItem
      obtain ⟨text, same, -⟩ := vouched none isItem
      cases same
    have between := mem_back_of_none_mem (whole.symm.trans whole') unread readable
    exact Client.not_vouched ⟨read, client.2⟩ (passed entry' between)
  · intro none_overlooked ip other found
    obtain ⟨front, entry, back, whole, passed, client⟩ :=
      (clientIp_eq_ok_iff trustedPeer values other).mp found
    refine ⟨front, entry, back, whole, client.1, ?_, ?_⟩
    · intro item isItem
      cases item with
      | none => exact absurd ⟨front, entry, back, ip, whole, client, passed, isItem⟩ none_overlooked
      | some text => exact ⟨text, rfl, passed text isItem⟩
    · intro values' front' whole'
      exact (clientIp_eq_ok_iff trustedPeer values' other).mpr
        ⟨front', entry, back, whole', passed, client⟩

end Found

/-! ## Two requests -/

/-- `10.0.0.0/8` -/
def inner : List IpNet :=
  [.v4 ⟨0x0a000000, 8, by decide⟩]

/-- `10.0.0.1` -/
def proxy : IpAddr :=
  .v4 0x0a000001

/-- The client wrote an address of its own in front of what the proxies added. -/
theorem follows_chain_added :
    clientIp .cidr inner proxy [ascii "6.6.6.6, [2001:db8::9]:443", ascii "10.0.0.2:80"] =
        .ok (.v6 0x20010db8000000000000000000000009) ∧
      FollowsChain .cidr inner proxy [ascii "6.6.6.6, [2001:db8::9]:443", ascii "10.0.0.2:80"] := by
  refine ⟨by decide +kernel, (follows_chain_iff (by decide) _).mpr ?_⟩
  rintro ⟨front, entry, back, ip, whole, -, -, unread⟩
  have unread : none ∈ items [ascii "6.6.6.6, [2001:db8::9]:443", ascii "10.0.0.2:80"] := by
    rw [whole]
    exact mem_append_right _ (mem_cons_of_mem _ unread)
  exact absurd unread (by decide)

/-- The proxy added its client to a value that is not text, so the client is the one
that the client named in another. -/
theorem unread_value_skipped :
    clientIp .cidr inner proxy [ascii "6.6.6.6", 0xFF :: ascii ", 203.0.113.9"] =
        .ok (.v4 0x06060606) ∧
      ¬ FollowsChain .cidr inner proxy [ascii "6.6.6.6", 0xFF :: ascii ", 203.0.113.9"] := by
  have found : clientIp .cidr inner proxy [ascii "6.6.6.6", 0xFF :: ascii ", 203.0.113.9"] =
      .ok (.v4 0x06060606) := by
    decide +kernel
  have listed : items [ascii "6.6.6.6", 0xFF :: ascii ", 203.0.113.9"] =
      [some (ascii "6.6.6.6"), none] := by
    decide
  refine ⟨found, fun follows => ?_⟩
  obtain ⟨front, entry, back, whole, -, vouched, -⟩ := follows _ (by decide) found
  rw [listed] at whole
  have unread : none ∈ back := by
    rcases cons_eq_append_iff.mp whole with ⟨-, same⟩ | ⟨front', -, same⟩
    · rw [(List.cons.inj same).2]
      exact mem_singleton_self _
    · rcases cons_eq_append_iff.mp same with ⟨-, same⟩ | ⟨front'', -, same⟩
      · cases same
      · cases front'' <;> cases same
  obtain ⟨text, same, -⟩ := vouched none unread
  cases same

end E6irc.Forwarded
