import Altus.Proof.Host.Handshake
import Altus.Proof.Host.Run

namespace Altus.Host

open Bytes Tables

/-- `ALTUS_RSA_KEY_SIZE`. -/
abbrev rsaKeySize : Nat := 700

/-- Every byte of an access lies in a key of the full size. -/
def InKey (offset : Nat) (length : Int) : Prop :=
  0 ≤ length ∧ ∀ index : Nat, (index : Int) < length → offset + index < rsaKeySize

/-- The functions of the code with another `memcpy` and another `memset`. -/
def writing (copy : Block → Nat → Memory → Int → Except Fault Block) (wipe : Block → Int → Except Fault Unit) :
    Callees := ⟨prepeerToPeer, copy, wipe⟩

/-- A datagram writes only to bytes of a key, reads only its own bytes and leaves no key that is too large. -/
structure KeepsKey (host : Host) (remoteAddr : Address) (buf : Memory) (recvSize : Int) (currentTime : U32)
    (raw : Raw) : Prop where
  /-- Any two functions that agree on the accesses inside a key do the same. -/
  writes : ∀ copy wipe,
    (∀ block offset source length, InKey offset length → copy block offset source length =
      block.copy offset source length) →
    (∀ block length, InKey 0 length → wipe block length = block.wipe length) →
    host.listener remoteAddr buf recvSize currentTime raw (writing copy wipe) =
      host.listener remoteAddr buf recvSize currentTime raw
  reads : ∀ other, SameBytes recvSize.toNat buf other →
    host.accepter (addrToUint64 remoteAddr) buf recvSize currentTime raw =
      host.accepter (addrToUint64 remoteAddr) other recvSize currentTime raw
  sizes : ∀ code sent next, host.listener remoteAddr buf recvSize currentTime raw = .ok (code, sent, next) →
    ∀ addrport prepeer, next.sPrePeers addrport = some prepeer → prepeer.keySize.toNat ≤ rsaKeySize

/-- The page of a handshake datagram is empty or ends inside a key. -/
def PageFits (buf : Memory) (recvSize : Int) : Prop :=
  ∀ page, Page.ofByte (buf 9) = some page → recvSize = 12 ∨ page.offset + (recvSize - 12) ≤ rsaKeySize

/-- A datagram that reaches the handshake announces no key that is too large, unless a prepeer is in time, and its page
fits. -/
def KeyFits (host : Host) (remoteAddr : Address) (buf : Memory) (recvSize : Int) (currentTime : U32) : Prop :=
  host.Listens remoteAddr → HasHeader buf recvSize →
    if host.Vacant (addrToUint64 remoteAddr) currentTime then
      ntohs buf 10 < 128#16 ∨ (ntohs buf 10).toNat ≤ rsaKeySize ∧ PageFits buf recvSize
    else PageFits buf recvSize

/-- Every prepeer holds its keys, and the announced size is no larger than the key. -/
def Keyed (host : Host) : Prop :=
  ∀ addrport prepeer, host.sPrePeers addrport = some prepeer → prepeer.publicKey.size = rsaKeySize ∧
    prepeer.sessionKey.size = 32 ∧ prepeer.keySize.toNat ≤ rsaKeySize

section Keys

variable {host next : Host} {addrport : U64} {remoteAddr : Address} {buf : Memory} {recvSize : Int} {currentTime : U32}
  {raw : Raw}

/-- The destructor of a prepeer wipes only its keys. -/
theorem Keyed.destroy (keyed : Keyed host) {prepeer : SPrePeer} (here : host.sPrePeers addrport = some prepeer) :
    prepeer.destroy = .ok () := by
  obtain ⟨publicKey, sessionKey, keySize⟩ := keyed addrport prepeer here
  have key : prepeer.publicKey.wipe prepeer.keySize.toNat = .ok () := by
    unfold Block.wipe
    rw [if_neg (by omega), if_neg (by omega)]
  have session : prepeer.sessionKey.wipe 32 = .ok () := by
    unfold Block.wipe
    rw [if_neg (by decide), if_neg (by rw [sessionKey]; decide)]
  rw [SPrePeer.destroy, key]
  exact session

/-- A timed out prepeer leaves, and no other one. -/
theorem Keyed.dropTimedOut (keyed : Keyed host) (addrport : U64) (currentTime : U32) :
    ∃ middle, host.dropTimedOut addrport currentTime = .ok middle ∧ Keyed middle ∧
      (middle.sPrePeers addrport = none ↔ host.Vacant addrport currentTime) := by
  unfold Host.dropTimedOut Vacant
  cases here : host.sPrePeers addrport with
  | none => exact ⟨host, rfl, keyed, by simp [here]⟩
  | some prepeer =>
      dsimp only
      by_cases late : 5000#32 < currentTime - prepeer.starttime
      · rw [if_pos late, keyed.destroy here]
        refine ⟨_, rfl, ?_, by simpa using late⟩
        intro other entry found
        exact keyed other entry (erase_eq_some.mp found).2
      · rw [if_neg late]
        exact ⟨host, rfl, keyed, by simpa [here] using late⟩

theorem inKey_iff {offset : Nat} {length : Int} (whole : 0 ≤ length) :
    InKey offset length ↔ length = 0 ∨ offset + length ≤ rsaKeySize := by
  have size : rsaKeySize = 700 := rfl
  constructor
  · rintro ⟨-, inside⟩
    rcases Int.lt_or_eq_of_le whole with positive | zero
    · have last := inside (length.toNat - 1) (by omega)
      omega
    · exact Or.inl zero.symm
  · intro fits
    exact ⟨whole, fun index below => by omega⟩

section Writes

variable {copy : Block → Nat → Memory → Int → Except Fault Block} {wipe : Block → Int → Except Fault Unit}

/-- The new functions do what the code's functions do inside a key. -/
def SameInKey (copy : Block → Nat → Memory → Int → Except Fault Block)
    (wipe : Block → Int → Except Fault Unit) : Prop :=
  (∀ block offset source length, InKey offset length → copy block offset source length =
    block.copy offset source length) ∧
  ∀ block length, InKey 0 length → wipe block length = block.wipe length

theorem destroy_writing (agree : SameInKey copy wipe) {prepeer : SPrePeer}
    (fits : prepeer.keySize.toNat ≤ rsaKeySize) : prepeer.destroy wipe = prepeer.destroy := by
  rw [SPrePeer.destroy, SPrePeer.destroy, agree.2 _ _ ((inKey_iff (by omega)).mpr (Or.inr (by omega)))]

theorem Keyed.dropTimedOut_writing (keyed : Keyed host) (agree : SameInKey copy wipe) :
    host.dropTimedOut addrport currentTime wipe = host.dropTimedOut addrport currentTime := by
  unfold Host.dropTimedOut
  cases here : host.sPrePeers addrport with
  | none => rfl
  | some prepeer =>
      have keySize := (keyed addrport prepeer here).2.2
      dsimp only
      rw [destroy_writing agree keySize]

theorem store_writing (agree : SameInKey copy wipe) (whole : 12 ≤ recvSize) (fits : PageFits buf recvSize)
    {page : Page} (named : Page.ofByte (buf 9) = some page) (prepeer : SPrePeer) (source : Memory) :
    prepeer.store page source (recvSize - 12) copy = prepeer.store page source (recvSize - 12) := by
  have inside : InKey page.offset (recvSize - 12) := by
    rw [inKey_iff (by omega)]
    rcases fits page named with empty | short
    · exact Or.inl (by omega)
    · exact Or.inr short
  rw [SPrePeer.store, SPrePeer.store, agree.1 _ _ _ _ inside]

theorem acceptFirst_writing (agree : SameInKey copy wipe) (whole : 12 ≤ recvSize)
    (fits : ntohs buf 10 < 128#16 ∨ (ntohs buf 10).toNat ≤ rsaKeySize ∧ PageFits buf recvSize) :
    host.acceptFirst addrport buf recvSize currentTime raw (writing copy wipe) =
      host.acceptFirst addrport buf recvSize currentTime raw := by
  rw [acceptFirst, acceptFirst, writing]
  dsimp only
  by_cases small : ntohs buf 10 < 128#16
  · rw [if_pos small, if_pos small]
  rw [if_neg small, if_neg small]
  obtain ⟨keySize, fits⟩ := fits.resolve_left small
  cases named : Page.ofByte (buf 9) with
  | none =>
      dsimp only
      rw [destroy_writing agree keySize]
  | some page =>
      dsimp only
      rw [store_writing agree whole fits named]

theorem acceptLater_writing (agree : SameInKey copy wipe) (whole : 12 ≤ recvSize) (fits : PageFits buf recvSize)
    (peer : SPrePeer) : host.acceptLater addrport peer buf recvSize raw (writing copy wipe) =
      host.acceptLater addrport peer buf recvSize raw := by
  have stored : storeLater peer buf recvSize copy = storeLater peer buf recvSize := by
    unfold storeLater
    cases named : Page.ofByte (buf 9) with
    | none => rfl
    | some page => exact store_writing agree whole fits named peer buf
  rw [acceptLater, acceptLater, writing, stored]

/-- A datagram that fits writes only to bytes of a key. -/
theorem Keyed.writes (keyed : Keyed host) (fits : host.KeyFits remoteAddr buf recvSize currentTime)
    (agree : SameInKey copy wipe) : host.listener remoteAddr buf recvSize currentTime raw (writing copy wipe) =
      host.listener remoteAddr buf recvSize currentTime raw := by
  by_cases reached : host.Listens remoteAddr ∧ HasHeader buf recvSize
  swap
  · exact listener_unreached reached _ _
  obtain ⟨middle, dropped, -, vacantIff⟩ := keyed.dropTimedOut (addrToUint64 remoteAddr) currentTime
  have fits := fits reached.1 reached.2
  have whole := reached.2.1
  have droppedWith := (keyed.dropTimedOut_writing agree).trans dropped
  cases here : middle.sPrePeers (addrToUint64 remoteAddr) with
  | none =>
      rw [if_pos (vacantIff.mp here)] at fits
      rw [listener_first reached.1 reached.2 droppedWith here, listener_first reached.1 reached.2 dropped here]
      exact acceptFirst_writing agree whole fits
  | some peer =>
      rw [if_neg (fun vacant => by rw [vacantIff.mpr vacant] at here; cases here)] at fits
      rw [listener_later reached.1 reached.2 droppedWith here, listener_later reached.1 reached.2 dropped here]
      exact acceptLater_writing agree whole fits peer

end Writes

/-- A step whose datagram fits keeps the keys. -/
theorem Keyed.step (keyed : Keyed host) {step : HostStep} {code : Int} {sent : List Sent}
    (fits : ∀ remoteAddr buf recvSize currentTime raw, step = .inbound remoteAddr buf recvSize currentTime raw →
      host.KeyFits remoteAddr buf recvSize currentTime)
    (stepped : host.step step = .ok (code, sent, next)) : Keyed next := by
  intro address prepeer found
  cases step_entry stepped found with
  | kept old before sizes acked =>
      rw [sizes.publicKey, sizes.sessionKey, sizes.keySize]
      exact keyed address old before
  | made own listens header vacant large sizes waits =>
      have fits := fits _ _ _ _ _ rfl listens header
      rw [if_pos (own ▸ vacant)] at fits
      rw [sizes.publicKey, sizes.sessionKey, sizes.keySize]
      exact ⟨rfl, rfl, (fits.resolve_left large).1⟩

/-- `accepter` reads only bytes of the datagram. -/
theorem accepter_reads (other : Memory) (same : SameBytes recvSize.toNat buf other) :
    host.accepter addrport buf recvSize currentTime raw = host.accepter addrport other recvSize currentTime raw := by
  rcases Int.lt_or_le recvSize 0 with negative | natural
  · unfold accepter
    rw [if_pos (by omega), if_pos (by omega)]
  · have congr := accepter_congr host addrport currentTime raw same
    rwa [Int.toNat_of_nonneg natural] at congr

theorem Keyed.keepsKey (keyed : Keyed host) (fits : host.KeyFits remoteAddr buf recvSize currentTime) :
    host.KeepsKey remoteAddr buf recvSize currentTime raw where
  writes := fun _ _ copies wipes => keyed.writes fits ⟨copies, wipes⟩
  reads := accepter_reads
  sizes := by
    intro code sent next listened address prepeer found
    have stepped : host.step (.inbound remoteAddr buf recvSize currentTime raw) = .ok (code, sent, next) := listened
    refine ((keyed.step ?_ stepped) address prepeer found).2.2
    intro _ _ _ _ _ same
    cases same
    exact fits

section Strict

/-- A `memcpy` that stops behind a key. -/
def strictCopy (block : Block) (offset : Nat) (source : Memory) (length : Int) : Except Fault Block :=
  if length = 0 ∨ offset + length ≤ rsaKeySize then block.copy offset source length else .error .exit

/-- A `memset` that stops behind a key. -/
def strictWipe (block : Block) (length : Int) : Except Fault Unit :=
  if length ≤ rsaKeySize then block.wipe length else .error .exit

theorem strict_agree : SameInKey strictCopy strictWipe := by
  constructor
  · intro block offset source length inside
    exact if_pos ((inKey_iff inside.1).mp inside)
  · intro block length inside
    have fits := (inKey_iff inside.1).mp inside
    refine if_pos ?_
    unfold rsaKeySize at fits ⊢
    omega

/-- A page that leaves the key is copied behind it. -/
theorem store_strict {page : Page} {prepeer : SPrePeer} (room : prepeer.publicKey.size = rsaKeySize)
    (whole : 12 ≤ recvSize) (source : Memory)
    (leaves : ¬ (recvSize = 12 ∨ page.offset + (recvSize - 12) ≤ rsaKeySize)) :
    prepeer.store page source (recvSize - 12) strictCopy = .error .exit ∧
      prepeer.store page source (recvSize - 12) = .error .outOfBounds := by
  constructor
  · rw [SPrePeer.store, strictCopy, if_neg (by omega)]
    rfl
  · unfold SPrePeer.store Block.copy
    rw [if_neg (by omega), if_pos ⟨by omega, by omega⟩]
    rfl

/-- A destructor that wipes too many bytes leaves the key. -/
theorem destroy_strict {prepeer : SPrePeer} (room : prepeer.publicKey.size = rsaKeySize)
    (leaves : ¬ prepeer.keySize.toNat ≤ rsaKeySize) :
    prepeer.destroy strictWipe = .error .exit ∧ prepeer.destroy = .error .outOfBounds := by
  constructor
  · rw [SPrePeer.destroy, strictWipe, if_neg (by omega)]
    rfl
  · unfold SPrePeer.destroy Block.wipe
    rw [if_neg (by omega), if_pos (by omega)]
    rfl

/-- A first datagram that writes only to bytes of a key names a page that fits, or announces a key that does. -/
theorem acceptFirst_fits (whole : 12 ≤ recvSize) (large : ¬ ntohs buf 10 < 128#16)
    (same : host.acceptFirst addrport buf recvSize currentTime raw (writing strictCopy strictWipe) =
      host.acceptFirst addrport buf recvSize currentTime raw) :
    PageFits buf recvSize ∧ (Page.ofByte (buf 9) = none → (ntohs buf 10).toNat ≤ rsaKeySize) := by
  rw [acceptFirst, acceptFirst, if_neg large, if_neg large, writing] at same
  cases named : Page.ofByte (buf 9) with
  | none =>
      have noPage : PageFits buf recvSize := fun page known => nomatch named.symm.trans known
      refine ⟨noPage, fun _ => ?_⟩
      by_contra leaves
      obtain ⟨strict, own⟩ := @destroy_strict
        { SPrePeer.sPrePeer currentTime raw with keySize := ntohs buf 10 } rfl leaves
      rw [named] at same
      dsimp only at same
      rw [strict, own] at same
      cases same
  | some page =>
      refine ⟨fun other known => ?_, fun impossible => by cases impossible⟩
      obtain rfl := Option.some.inj (named.symm.trans known)
      by_contra leaves
      obtain ⟨strict, own⟩ := @store_strict recvSize page
        { SPrePeer.sPrePeer currentTime raw with keySize := ntohs buf 10 } rfl whole (shift buf 12) leaves
      rw [named] at same
      dsimp only at same
      rw [strict, own] at same
      cases same

/-- A first page that fits and does not hold the whole key is stored with the size that it announces. -/
theorem acceptFirst_stores (whole : 12 ≤ recvSize) (large : ¬ ntohs buf 10 < 128#16)
    (fresh : host.sPrePeers addrport = none) {page : Page} (named : Page.ofByte (buf 9) = some page)
    (fits : PageFits buf recvSize) (several : ¬ (page = .a ∧ ((ntohs buf 10).toNat : Int) = recvSize - 12)) :
    ∃ code sent next prepeer, host.acceptFirst addrport buf recvSize currentTime raw = .ok (code, sent, next) ∧
      next.sPrePeers addrport = some prepeer ∧ prepeer.keySize = ntohs buf 10 := by
  obtain ⟨stored, kept⟩ := @store_fits page (recvSize - 12)
    { SPrePeer.sPrePeer currentTime raw with keySize := ntohs buf 10 } (shift buf 12) (by omega)
    ((fits page named).imp (by omega) id)
  refine ⟨1, [], { host with sPrePeers := insert host.sPrePeers addrport stored }, stored, ?_, insert_self fresh,
    (store_ok kept).1.keySize⟩
  rw [acceptFirst]
  dsimp only
  rw [if_neg large, named]
  dsimp only
  rw [kept]
  dsimp only [Except.bind]
  rw [if_neg several]
  rfl

/-- A later datagram that writes only to bytes of a key names a page that fits. -/
theorem acceptLater_fits (whole : 12 ≤ recvSize) {peer : SPrePeer} (room : peer.publicKey.size = rsaKeySize)
    (same : host.acceptLater addrport peer buf recvSize raw (writing strictCopy strictWipe) =
      host.acceptLater addrport peer buf recvSize raw) : PageFits buf recvSize := by
  intro page named
  by_contra leaves
  obtain ⟨strict, own⟩ := store_strict room whole buf leaves
  rw [acceptLater, acceptLater, storeLater, storeLater, named, writing] at same
  dsimp only at same
  rw [strict, own] at same
  cases same

/-- A datagram that keeps the keys fits. -/
theorem Keyed.fits (keyed : Keyed host) (keeps : host.KeepsKey remoteAddr buf recvSize currentTime raw) :
    host.KeyFits remoteAddr buf recvSize currentTime := by
  intro listens header
  have whole := header.1
  have same := keeps.writes strictCopy strictWipe strict_agree.1 strict_agree.2
  obtain ⟨middle, dropped, middleKeyed, vacantIff⟩ := keyed.dropTimedOut (addrToUint64 remoteAddr) currentTime
  have droppedWith := (keyed.dropTimedOut_writing strict_agree).trans dropped
  cases here : middle.sPrePeers (addrToUint64 remoteAddr) with
  | none =>
      have answer := @listener_first host remoteAddr buf recvSize currentTime raw listens header
        ⟨prepeerToPeer, Block.copy, Block.wipe⟩ middle dropped here
      rw [if_pos (vacantIff.mp here), or_iff_not_imp_left]
      intro large
      rw [listener_first listens header droppedWith here, answer] at same
      obtain ⟨pageFits, keySize⟩ := acceptFirst_fits whole large same
      refine ⟨?_, pageFits⟩
      cases named : Page.ofByte (buf 9) with
      | none => exact keySize named
      | some page =>
          by_contra leaves
          have several : ¬ (page = .a ∧ ((ntohs buf 10).toNat : Int) = recvSize - 12) := by
            rintro ⟨rfl, onePage⟩
            have short := pageFits .a named
            unfold rsaKeySize at short leaves
            unfold Page.offset at short
            omega
          obtain ⟨code, sent, next, prepeer, accepted, found, size⟩ :=
            @acceptFirst_stores middle (addrToUint64 remoteAddr) buf recvSize currentTime raw whole large here page named
              pageFits several
          have bound := keeps.sizes code sent next (answer.trans accepted) _ _ found
          exact leaves (size ▸ bound)
  | some peer =>
      rw [if_neg (fun vacant => by rw [vacantIff.mpr vacant] at here; cases here)]
      rw [listener_later listens header droppedWith here, listener_later listens header dropped here] at same
      exact acceptLater_fits whole (middleKeyed _ _ here).1 same

end Strict

theorem altusHost_keyed (myPublicKey : Memory) (pools : Pools) : Keyed (altusHost myPublicKey pools) :=
  fun _ _ impossible => nomatch impossible

/-- A completed step whose datagram fits. -/
def FitStep (host next : Host) : Prop :=
  ∃ step code sent, host.step step = .ok (code, sent, next) ∧
    ∀ remoteAddr buf recvSize currentTime raw, step = .inbound remoteAddr buf recvSize currentTime raw →
      host.KeyFits remoteAddr buf recvSize currentTime

/-- In every run whose datagrams fit, the keys stay in their buffers, and the next datagram keeps them exactly when it
fits. -/
theorem run_keepsKey_iff {myPublicKey : Memory} {pools : Pools}
    (run : Relation.ReflTransGen FitStep (altusHost myPublicKey pools) host) :
    Keyed host ∧ ∀ remoteAddr buf recvSize currentTime raw,
      host.KeepsKey remoteAddr buf recvSize currentTime raw ↔ host.KeyFits remoteAddr buf recvSize currentTime := by
  have keyed : Keyed host := by
    induction run with
    | refl => exact altusHost_keyed myPublicKey pools
    | tail _ last ih =>
        obtain ⟨step, code, sent, stepped, fits⟩ := last
        exact ih.step fits stepped
  exact ⟨keyed, fun _ _ _ _ _ => ⟨keyed.fits, keyed.keepsKey⟩⟩

end Keys

/-- The last bytes of a key in two pages keep to the key. -/
theorem run_keepsKey_iff_lastPage :
    blank.KeepsKey ⟨1, 512⟩ (handshakeOf 66 700) 228 0 blankRaw := by
  have run : Relation.ReflTransGen FitStep blank blank := .refl
  refine ((run_keepsKey_iff run).2 ⟨1, 512⟩ (handshakeOf 66 700) 228 0 blankRaw).mpr ?_
  intro _ _
  have vacant : blank.Vacant (addrToUint64 ⟨1, 512⟩) 0 := fun _ impossible => nomatch impossible
  rw [if_pos vacant]
  refine Or.inr ⟨by decide, fun page named => ?_⟩
  obtain rfl : Page.b = page := Option.some.inj named
  exact Or.inr (by decide)

/-- A second page of a whole datagram leaves the key, and so does the wipe of a key that is announced with 701 bytes. -/
theorem largePage_leaves_key :
    ¬ blank.KeepsKey ⟨1, 512⟩ (handshakeOf 66 700) 496 0 blankRaw ∧
      ¬ blank.KeepsKey ⟨1, 512⟩ (handshakeOf 65 701) 496 0 blankRaw := by
  have keyed : Keyed blank := altusHost_keyed _ _
  have vacant : blank.Vacant (addrToUint64 ⟨1, 512⟩) 0 := fun _ impossible => nomatch impossible
  constructor
  · intro keeps
    have fits := keyed.fits keeps (by decide) (by decide)
    rw [if_pos vacant] at fits
    exact absurd ((fits.resolve_left (by decide)).2 .b rfl) (by decide)
  · intro keeps
    have fits := keyed.fits keeps (by decide) (by decide)
    rw [if_pos vacant] at fits
    exact absurd (fits.resolve_left (by decide)).1 (by decide)

end Altus.Host
