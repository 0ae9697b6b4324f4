import Altus.Proof.Host.OwnBytes

namespace Altus

open Bytes Tables

/-- The tenth byte of a datagram with a page. -/
def Page.letter : Page → Byte
  | .a => 65
  | .b => 66
  | .c => 67
  | .d => 68

@[simp] theorem Page.ofByte_letter (page : Page) : ofByte page.letter = some page := by
  cases page <;> rfl

/-- The flag of a page. -/
def SPrePeer.received (prepeer : SPrePeer) : Page → Bool
  | .a => prepeer.a
  | .b => prepeer.b
  | .c => prepeer.c
  | .d => prepeer.d

/-- Equal bytes compare as equal. -/
theorem strncmp_same {first second : Memory} {count : Nat} (same : SameBytes count first second) :
    strncmp first second count = 0 := by
  induction count generalizing first second with
  | zero => rfl
  | succ count ih =>
      have head := same 0 (Nat.succ_pos _)
      rw [strncmp, if_neg (not_not.mpr head)]
      split
      · rfl
      · exact ih (same.shift 1)

namespace Host

section Client

variable {key : Memory} {size : Nat}

/-- The header of a datagram of `SendHandShake1`. -/
def pageHeader (size : Nat) (page : Page) : List Byte :=
  ascii "ALTUS/1.0" ++ page.letter :: read (htons (BitVec.ofInt 16 size)) 2

/-- The message of which `SendHandShake1` sends the front. -/
def pageMessage (key : Memory) (size : Nat) (page : Page) (length : Nat) : Memory :=
  memcpy (ofList (pageHeader size page)) 12 key length

/-- The bytes of a datagram for one page of the key. -/
def pageLength (size : Nat) : Page → Nat
  | .a => min 484 size
  | .b => size - 484
  | _ => 0

theorem pageLength_a (size : Nat) : pageLength size .a = min 484 size := rfl

theorem pageLength_b (size : Nat) : pageLength size .b = size - 484 := rfl

/-- A key of at most 700 bytes has one or two pages. -/
theorem mem_handShake (lower : 128 ≤ size) (upper : size ≤ 700) {datagram : Datagram}
    (sent : datagram ∈ handShake key size) :
    ∃ page, (page = .a ∨ page = .b ∧ 484 < size) ∧
      datagram = read (pageMessage key size page (pageLength size page)) (pageLength size page) := by
  obtain ⟨rounds, rfl⟩ : ∃ rounds, size = rounds + 3 := ⟨size - 3, by omega⟩
  unfold handShake at sent
  rw [Int.toNat_natCast, handShakeLoop, if_pos (by omega)] at sent
  dsimp only at sent
  rcases List.mem_cons.mp sent with rfl | sent
  · refine ⟨.a, Or.inl rfl, ?_⟩
    have length : (min 484 (((rounds + 3 : Nat) : Int) - 0)).toNat = pageLength (rounds + 3) .a := by
      rw [pageLength_a]
      omega
    rw [handShakePage, length]
    rfl
  · rw [handShakeLoop] at sent
    split at sent
    · rename_i more
      have long : 484 < rounds + 3 := by omega
      dsimp only at sent
      rcases List.mem_cons.mp sent with rfl | sent
      · refine ⟨.b, Or.inr ⟨rfl, long⟩, ?_⟩
        have length : (min 484 (((rounds + 3 : Nat) : Int) - (0 + min 484 (((rounds + 3 : Nat) : Int) - 0)))).toNat =
            pageLength (rounds + 3) .b := by
          rw [pageLength_b]
          omega
        rw [handShakePage, length]
        rfl
      · rw [handShakeLoop, if_neg (by omega)] at sent
        cases sent
    · cases sent

/-- The bytes of a header by their places. -/
theorem pageHeader_eq (size : Nat) (page : Page) :
    pageHeader size page = [65, 76, 84, 85, 83, 47, 49, 46, 48, page.letter,
      htons (BitVec.ofInt 16 size) 0, htons (BitVec.ofInt 16 size) 1] := rfl

/-- The header stays in front of the key. -/
theorem pageMessage_header (key : Memory) (size : Nat) (page : Page) (length : Nat) {index : Nat}
    (inside : index < 12) :
    pageMessage key size page length index = ofList (pageHeader size page) index :=
  memcpy_outside (Or.inl inside)

theorem pageMessage_name (key : Memory) (size : Nat) (page : Page) (length : Nat) :
    strncmp (ofList (ascii "ALTUS/")) (pageMessage key size page length) 6 = 0 := by
  apply strncmp_same
  intro index below
  rw [pageMessage_header _ _ _ _ (by omega), pageHeader_eq]
  interval_cases index <;> rfl

theorem pageMessage_version (key : Memory) (size : Nat) (page : Page) (length : Nat) :
    strncmp (ofList (ascii "1.0")) (shift (pageMessage key size page length) 6) 3 = 0 := by
  apply strncmp_same
  intro index below
  rw [shift, pageMessage_header _ _ _ _ (by omega), pageHeader_eq]
  interval_cases index <;> rfl

theorem pageMessage_letter (key : Memory) (size : Nat) (page : Page) (length : Nat) :
    pageMessage key size page length 9 = page.letter := by
  rw [pageMessage_header _ _ _ _ (by omega), pageHeader_eq]
  rfl

theorem pageMessage_size (key : Memory) (size : Nat) (page : Page) (length : Nat) :
    ntohs (pageMessage key size page length) 10 = BitVec.ofInt 16 size := by
  apply ntohs_htons
  intro index below
  rw [pageMessage_header _ _ _ _ (by omega), pageHeader_eq]
  interval_cases index <;> rfl

end Client

/-- A datagram that arrives, the bytes that it overwrites, the time of its arrival and what `new` finds then. -/
structure Delivery where
  datagram : Datagram
  buffer : Memory
  currentTime : U32
  raw : Raw

/-- The datagram lies in front of what earlier ones left. -/
def Delivery.buf (delivery : Delivery) : Memory :=
  memcpy delivery.buffer 0 (ofList delivery.datagram) delivery.datagram.length

/-- A delivery at the accepter. -/
def Delivery.arrive (delivery : Delivery) (host : Host) (addrport : U64) : Answer :=
  host.accepter addrport delivery.buf delivery.datagram.length delivery.currentTime delivery.raw

/-- The datagram has a whole header. -/
def Delivery.whole (delivery : Delivery) : Bool := 12 ≤ delivery.datagram.length

/-- Every page of the key arrived, and the prepeer holds the key. -/
structure HoldsKey (key : Memory) (size : Nat) (prepeer : SPrePeer) : Prop where
  pages : ∀ page : Page, page.offset < size → prepeer.received page = true
  keySize : prepeer.keySize.toNat = size
  bytes : ∀ index < size, prepeer.publicKey.bytes index = key index

/-- Whenever a delivery of a run is acknowledged, the prepeer holds the key. -/
def AcksKey (key : Memory) (size : Nat) (addrport : U64) (host : Host) : List Delivery → Prop
  | [] => True
  | delivery :: rest =>
      ∀ code sent next, delivery.arrive host addrport = .ok (code, sent, next) →
        ((addressOf addrport, ackDatagram) ∈ sent →
          ∃ prepeer, next.sPrePeers addrport = some prepeer ∧ HoldsKey key size prepeer) ∧
        AcksKey key size addrport next rest

/-- What the accepter knows of a prepeer while datagrams of one key arrive. The last bytes of the key were never sent. -/
structure Begun (size : Nat) (raw : Raw) (currentTime : U32) (prepeer : SPrePeer) : Prop where
  keySize : prepeer.keySize = BitVec.ofInt 16 size
  starttime : prepeer.starttime = currentTime
  room : prepeer.publicKey.size = 700
  unwritten : ∀ index, size - 12 ≤ index → prepeer.publicKey.bytes index = raw.publicKey index
  first : prepeer.a = true ∨ prepeer.b = true

section Server

variable {key : Memory} {size : Nat} {page : Page} {host : Host} {addrport : U64} {raw : Raw} {currentTime : U32}

theorem keySize_toNat (upper : size ≤ 700) : (BitVec.ofInt 16 (size : Int)).toNat = size := by
  rw [BitVec.toNat_ofInt]
  omega

/-- A page of the key lies inside the key of a prepeer and ends before the last twelve bytes. -/
theorem store_begun (upper : size ≤ 700) (known : page = .a ∨ page = .b ∧ 484 < size)
    (whole : 12 ≤ pageLength size page) {prepeer : SPrePeer} {time : U32} (source : Memory)
    (keySize : prepeer.keySize = BitVec.ofInt 16 size) (starttime : prepeer.starttime = time)
    (room : prepeer.publicKey.size = 700)
    (unwritten : ∀ index, size - 12 ≤ index → prepeer.publicKey.bytes index = raw.publicKey index) :
    ∃ stored, prepeer.store page source ((pageLength size page : Nat) - 12 : Int) = .ok stored ∧
      Begun size raw time stored := by
  have bounds : page.offset + (pageLength size page - 12) ≤ size - 12 := by
    rcases known with rfl | ⟨rfl, long⟩
    · rw [pageLength_a, show Page.a.offset = 0 from rfl]
      omega
    · rw [pageLength_b] at whole ⊢
      rw [show Page.b.offset = 484 from rfl]
      omega
  have count : (((pageLength size page : Nat) : Int) - 12).toNat = pageLength size page - 12 := by omega
  unfold SPrePeer.store Block.copy
  rw [if_neg (by omega), room, if_neg (by omega), count]
  refine ⟨_, rfl, ?_⟩
  have written : ∀ index, size - 12 ≤ index →
      memcpy prepeer.publicKey.bytes page.offset source (pageLength size page - 12) index = raw.publicKey index := by
    intro index late
    rw [memcpy_outside (by omega)]
    exact unwritten index late
  rcases known with rfl | ⟨rfl, -⟩
  · exact ⟨keySize, starttime, rfl, written, Or.inl rfl⟩
  · exact ⟨keySize, starttime, rfl, written, Or.inr rfl⟩

/-- The first page of a key makes a prepeer. -/
theorem accepter_first (lower : 128 ≤ size) (upper : size ≤ 700) (known : page = .a ∨ page = .b ∧ 484 < size)
    (whole : 12 ≤ pageLength size page) (fresh : host.sPrePeers addrport = none) :
    ∃ next prepeer, host.accepter addrport (pageMessage key size page (pageLength size page)) (pageLength size page)
        currentTime raw = .ok (1, [], next) ∧
      next.sPrePeers addrport = some prepeer ∧ Begun size raw currentTime prepeer := by
  obtain ⟨prepeer, stored, begun⟩ := store_begun upper known whole
    (shift (pageMessage key size page (pageLength size page)) 12)
    (show ({ SPrePeer.sPrePeer currentTime raw with keySize := BitVec.ofInt 16 size } : SPrePeer).keySize = _ from rfl)
    rfl rfl (fun _ _ => rfl)
  have large : ¬ BitVec.ofInt 16 (size : Int) < 128#16 := by
    rw [BitVec.lt_def, keySize_toNat upper]
    exact Nat.not_lt.mpr lower
  have longer : ¬ (page = .a ∧ ((BitVec.ofInt 16 (size : Int)).toNat : Int) = (pageLength size page : Nat) - 12) := by
    rintro ⟨rfl, equal⟩
    rw [keySize_toNat upper] at equal
    rw [pageLength_a] at equal
    omega
  refine ⟨{ host with sPrePeers := insert host.sPrePeers addrport prepeer }, prepeer, ?_, insert_self fresh, begun⟩
  unfold accepter dropTimedOut
  rw [if_neg (by omega), pageMessage_name, if_neg (by decide), pageMessage_version, if_neg (by decide), fresh]
  change (Except.ok host).bind _ = _
  simp only [Except.bind, fresh, acceptFirst, pageMessage_size, pageMessage_letter, Page.ofByte_letter]
  rw [if_neg large, stored]
  simp only [if_neg longer, Except.map]

/-- Every later page is acknowledged, whichever pages arrived. -/
theorem accepter_later (key : Memory) (upper : size ≤ 700) (known : page = .a ∨ page = .b ∧ 484 < size)
    (whole : 12 ≤ pageLength size page) {prepeer : SPrePeer} {time : U32} (later : Raw)
    (here : host.sPrePeers addrport = some prepeer) (begun : Begun size raw time prepeer)
    (inTime : currentTime - time ≤ 5000#32) :
    ∃ next again, host.accepter addrport (pageMessage key size page (pageLength size page)) (pageLength size page)
        currentTime later = .ok (0, [(addressOf addrport, ackDatagram)], next) ∧
      next.sPrePeers addrport = some again ∧ Begun size raw time again := by
  obtain ⟨stored, written, kept⟩ := store_begun upper known whole
    (pageMessage key size page (pageLength size page)) begun.keySize begun.starttime begun.room begun.unwritten
  have letter : ¬ (page.letter = 90 ∧ stored.isAckSent = true) := by
    rintro ⟨equal, -⟩
    rcases known with rfl | ⟨rfl, -⟩ <;> exact absurd equal (by decide)
  have due : ackDue stored = true := by
    have short : stored.keySize.toNat < 968 := by
      rw [kept.keySize, keySize_toNat upper]
      omega
    unfold ackDue
    rcases kept.first with first | first <;> simp [short, first]
  have young : ¬ 5000#32 < currentTime - prepeer.starttime := by
    rw [begun.starttime]
    exact BitVec.not_lt.mpr inTime
  refine ⟨{ host with sPrePeers := Function.update host.sPrePeers addrport (some { stored with isAckSent := true }) },
    { stored with isAckSent := true }, ?_, Function.update_self .., ?_⟩
  · unfold accepter dropTimedOut
    rw [if_neg (by omega), pageMessage_name, if_neg (by decide), pageMessage_version, if_neg (by decide), here]
    dsimp only
    rw [if_neg young]
    simp only [Except.bind, here, acceptLater, storeLater, pageMessage_letter, Page.ofByte_letter, written]
    rw [if_neg letter, if_pos due]
    rfl
  · exact ⟨kept.keySize, kept.starttime, kept.room, kept.unwritten, kept.first⟩

end Server

section Deliveries

variable {key : Memory} {size : Nat} {host : Host} {addrport : U64} {delivery : Delivery} {deliveries : List Delivery}

/-- A delivered page is the message of its page, as far as it was sent. -/
theorem arrive_page (lower : 128 ≤ size) (upper : size ≤ 700) (sent : delivery.datagram ∈ handShake key size) :
    ∃ page, (page = .a ∨ page = .b ∧ 484 < size) ∧ delivery.datagram.length = pageLength size page ∧
      ∀ (host : Host) (addrport : U64), delivery.arrive host addrport =
        host.accepter addrport (pageMessage key size page (pageLength size page)) (pageLength size page)
          delivery.currentTime delivery.raw := by
  obtain ⟨page, known, same⟩ := mem_handShake lower upper sent
  have long : delivery.datagram.length = pageLength size page := by rw [same, read_length]
  refine ⟨page, known, long, fun host addrport => ?_⟩
  rw [Delivery.arrive, long]
  apply accepter_congr
  intro index below
  rw [Delivery.buf, memcpy_inside (Nat.zero_le _) (by omega), Nat.sub_zero, same, ofList_read _ below]

/-- A page without a whole header is refused. -/
theorem arrive_short (short : ¬ delivery.whole) : delivery.arrive host addrport = .ok (-2, [], host) := by
  rw [Delivery.whole, decide_eq_true_iff] at short
  unfold Delivery.arrive accepter
  rw [if_pos (by omega)]

/-- Without another whole page nothing is acknowledged. -/
theorem acksKey_of_short (short : ∀ delivery ∈ deliveries, ¬ delivery.whole) :
    AcksKey key size addrport host deliveries := by
  induction deliveries with
  | nil => trivial
  | cons delivery rest ih =>
      intro code sent next arrived
      rw [arrive_short (short delivery List.mem_cons_self)] at arrived
      cases arrived
      refine ⟨fun acked => ?_, ih fun other member => short other (List.mem_cons_of_mem _ member)⟩
      cases acked

/-- Once a prepeer is made, the next whole page is acknowledged, with the last bytes as the memory had them. -/
theorem short_of_acksKey (lower : 128 ≤ size) (upper : size ≤ 700) {raw : Raw} {time : U32} {prepeer : SPrePeer}
    (here : host.sPrePeers addrport = some prepeer) (begun : Begun size raw time prepeer)
    (sent : ∀ delivery ∈ deliveries, delivery.datagram ∈ handShake key size)
    (inTime : ∀ delivery ∈ deliveries, delivery.currentTime - time ≤ 5000#32)
    (acks : AcksKey key size addrport host deliveries) :
    (∀ delivery ∈ deliveries, ¬ delivery.whole) ∨
      ∀ index, size - 12 ≤ index → index < size → raw.publicKey index = key index := by
  induction deliveries with
  | nil => exact Or.inl fun _ impossible => nomatch impossible
  | cons delivery rest ih =>
      by_cases whole : delivery.whole
      · right
        obtain ⟨page, known, long, same⟩ := arrive_page lower upper (sent delivery List.mem_cons_self)
        rw [Delivery.whole, decide_eq_true_iff, long] at whole
        obtain ⟨next, again, answered, found, kept⟩ := accepter_later key upper known whole delivery.raw here
          begun (inTime delivery List.mem_cons_self)
        obtain ⟨other, present, holds⟩ := (acks _ _ _ ((same host addrport).trans answered)).1 List.mem_cons_self
        obtain rfl := Option.some.inj (found.symm.trans present)
        intro index late inside
        rw [← kept.unwritten index late]
        exact holds.bytes index inside
      · have later := (acks _ _ _ (arrive_short whole)).2
        rcases ih (fun other member => sent other (List.mem_cons_of_mem _ member))
          (fun other member => inTime other (List.mem_cons_of_mem _ member)) later with short | memory
        · left
          intro other member
          rcases List.mem_cons.mp member with rfl | member
          · exact whole
          · exact short other member
        · exact Or.inr memory

/-- The server acknowledges exactly when a second whole page arrives. It then holds the key only if the memory of the
new prepeer held the last twelve bytes of the key before. -/
theorem run_acksKey (lower : 128 ≤ size) (upper : size ≤ 700) (fresh : host.sPrePeers addrport = none)
    (sent : ∀ delivery ∈ deliveries, delivery.datagram ∈ handShake key size)
    (inTime : deliveries.Pairwise fun early late => late.currentTime - early.currentTime ≤ 5000#32) :
    (deliveries.countP Delivery.whole ≤ 1 → AcksKey key size addrport host deliveries) ∧
      (AcksKey key size addrport host deliveries →
        deliveries.countP Delivery.whole ≤ 1 ∨
        ∃ delivery ∈ deliveries, ∀ index, size - 12 ≤ index → index < size →
          delivery.raw.publicKey index = key index) := by
  induction deliveries with
  | nil => exact ⟨fun _ => trivial, fun _ => Or.inl (Nat.zero_le 1)⟩
  | cons delivery rest ih =>
      have sentLater : ∀ other ∈ rest, other.datagram ∈ handShake key size :=
        fun other member => sent other (List.mem_cons_of_mem _ member)
      obtain ⟨waits, inTime⟩ := List.pairwise_cons.mp inTime
      by_cases whole : delivery.whole
      · obtain ⟨page, known, long, same⟩ := arrive_page lower upper (sent delivery List.mem_cons_self)
        have enough := whole
        rw [Delivery.whole, decide_eq_true_iff, long] at enough
        obtain ⟨next, prepeer, answered, here, begun⟩ := @accepter_first key size page host addrport delivery.raw
          delivery.currentTime lower upper known enough fresh
        have arrived := (same host addrport).trans answered
        rw [List.countP_cons_of_pos whole]
        constructor
        · intro few code sends after returned
          rw [arrived] at returned
          cases returned
          refine ⟨fun acked => (nomatch acked), acksKey_of_short ?_⟩
          exact List.countP_eq_zero.mp (by omega)
        · intro acks
          rcases short_of_acksKey lower upper here begun sentLater waits (acks _ _ _ arrived).2 with short | memory
          · left
            rw [List.countP_eq_zero.mpr short]
          · exact Or.inr ⟨delivery, List.mem_cons_self, memory⟩
      · have arrived := @arrive_short host addrport delivery whole
        obtain ⟨enough, only⟩ := ih sentLater inTime
        rw [List.countP_cons_of_neg whole]
        constructor
        · intro few code sends after returned
          rw [arrived] at returned
          cases returned
          exact ⟨fun acked => (nomatch acked), enough few⟩
        · intro acks
          rcases only (acks _ _ _ arrived).2 with few | ⟨other, member, memory⟩
          · exact Or.inl few
          · exact Or.inr ⟨other, List.mem_cons_of_mem _ member, memory⟩

end Deliveries

/-- The only page of a key of 128 equal bytes. -/
def onePage : Delivery := ⟨(handShake (fun _ => 7) 128).headD [], fun _ => 0, 0, blankRaw⟩

theorem onePage_sent : onePage.datagram ∈ handShake (fun _ => 7) (128 : Nat) := by decide +kernel

/-- One page makes a prepeer and is not acknowledged. -/
theorem run_acksKey_once : AcksKey (fun _ => 7) 128 0 blank [onePage] :=
  (run_acksKey (by decide) (by decide) rfl (by simpa using onePage_sent) (List.pairwise_singleton _ _)).1
    (by decide +kernel)

/-- The second copy of the only page is acknowledged, and the last twelve bytes of the key never came. -/
theorem copies_acknowledged : ¬ AcksKey (fun _ => 7) 128 0 blank [onePage, onePage] := by
  intro acks
  have whole : onePage.whole = true := by decide +kernel
  obtain ⟨page, known, long, same⟩ := @arrive_page _ 128 onePage (by decide) (by decide) onePage_sent
  have enough := whole
  rw [Delivery.whole, decide_eq_true_iff, long] at enough
  obtain ⟨next, prepeer, answered, here, begun⟩ := @accepter_first (fun _ => 7) 128 page blank 0 blankRaw 0
    (by decide) (by decide) known enough rfl
  have later := (acks _ _ _ ((same blank 0).trans answered)).2
  rcases short_of_acksKey (by decide) (by decide) here begun (by simpa using onePage_sent)
    (fun other member => by rw [List.mem_singleton.mp member]; decide) later with short | memory
  · exact short onePage List.mem_cons_self whole
  · exact absurd (memory 127 (by decide) (by decide)) (by decide)

end Host

end Altus
