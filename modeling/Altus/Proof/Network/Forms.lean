import Altus.Construction.Network
import Altus.Proof.Host.Sends
import Altus.Proof.Host.KeyTransfer
import Altus.Proof.Peer.Directory

namespace Altus

open Bytes Host

namespace Datagram

/-- A server makes a prepeer of such a datagram. -/
def Opens (datagram : Datagram) : Prop :=
  HasHeader (ofList datagram) datagram.length ∧ ∃ page, Page.ofByte (ofList datagram 9) = some page

/-- A client takes such a datagram for the reply of its server. -/
def Replies (datagram : Datagram) : Prop := validReply (ofList datagram) datagram.length = true

/-- A server ends a handshake with such a datagram. -/
def Finishes (datagram : Datagram) : Prop :=
  HasHeader (ofList datagram) datagram.length ∧ ofList datagram 9 = 90

end Datagram

open Datagram

/-- The two pages of a key of `ALTUS_RSA_KEY_SIZE` bytes. -/
structure IsPage (datagram : Datagram) : Prop where
  opens : Opens datagram
  letter : ofList datagram 9 = 65 ∨ ofList datagram 9 = 66
  size : datagram.length = 484 ∨ datagram.length = 216

theorem handShake_isPage {key : Memory} {datagram : Datagram} (member : datagram ∈ handShake key 700) :
    IsPage datagram := by
  obtain ⟨page, known, rfl⟩ := mem_handShake (by decide) le_rfl (show datagram ∈ handShake key (700 : Nat) from member)
  have long : 12 ≤ pageLength 700 page := by
    rcases known with rfl | ⟨rfl, -⟩ <;> decide
  have same : SameBytes 12 (ofList (read (pageMessage key 700 page (pageLength 700 page)) (pageLength 700 page)))
      (pageMessage key 700 page (pageLength 700 page)) := fun index inside => ofList_read _ (by omega)
  have letter := (same 9 (by decide)).trans (pageMessage_letter key 700 page _)
  refine ⟨⟨⟨?_, ?_, ?_⟩, page, ?_⟩, ?_, ?_⟩
  · rw [read_length]
    exact_mod_cast long
  · rw [strncmp_congr (fun _ _ => rfl) (same.mono (by decide)), pageMessage_name]
  · rw [strncmp_congr (fun _ _ => rfl) ((same.shift 6).mono (by decide)), pageMessage_version]
  · rw [letter, Page.ofByte_letter]
  · rw [letter]
    rcases known with rfl | ⟨rfl, -⟩
    · exact Or.inl rfl
    · exact Or.inr rfl
  · rw [read_length]
    rcases known with rfl | ⟨rfl, -⟩
    · exact Or.inl rfl
    · exact Or.inr rfl

/-- The first byte of a datagram of a channel is zero, which no handshake datagram has. -/
theorem Peer.Speaks.first {role : Role} {datagram : Datagram} (speaks : Peer.Speaks role datagram) :
    ofList datagram 0 = 0 := by
  have small : (ntohs (ofList datagram) 0).toNat < 4 := by
    cases speaks with
    | data channel => exact Role.directory_small channel
    | ack channel => exact Role.directory_small channel
  rw [ntohs, BitVec.toNat_append] at small
  apply BitVec.eq_of_toNat_eq
  have high := Nat.left_le_or.trans_lt small
  rw [Nat.shiftLeft_eq] at high
  have zero : (0 : Byte).toNat = 0 := rfl
  omega

theorem Peer.Speaks.noHeader {role : Role} {datagram : Datagram} (speaks : Peer.Speaks role datagram) (size : Int) :
    ¬ HasHeader (ofList datagram) size := by
  rintro ⟨-, name, -⟩
  rw [strncmp, speaks.first, if_pos (by decide)] at name
  exact absurd name (by decide)

theorem Peer.Speaks.noReply {role : Role} {datagram : Datagram} (speaks : Peer.Speaks role datagram) :
    ¬ Replies datagram := by
  intro replies
  rw [Replies, validReply, Bool.and_eq_true, decide_eq_true_eq, decide_eq_true_eq] at replies
  have name := replies.2
  rw [strncmp, speaks.first, if_pos (by decide)] at name
  exact absurd name (by decide)

/-- The header of a handshake names a channel that no peer has. -/
theorem HasHeader.foreign {buf : Memory} {size : Int} (header : HasHeader buf size) : ¬ (ntohs buf 0).toNat < 4 := by
  have first : buf 0 = 65 := by
    by_contra other
    obtain ⟨-, name, -⟩ := header
    rw [strncmp, if_pos (by exact fun same => other same.symm)] at name
    have letter : (ofList (ascii "ALTUS/") 0).toNat = 65 := rfl
    apply other
    apply BitVec.eq_of_toNat_eq
    have value : (65 : Byte).toNat = 65 := rfl
    omega
  intro small
  rw [ntohs, first, BitVec.toNat_append] at small
  have high := Nat.left_le_or.trans_lt small
  exact absurd high (by decide)

section Fixed

theorem ack_finishes : ¬ Finishes ackDatagram := by
  rintro ⟨-, letter⟩
  exact absurd letter (by decide)

theorem ack_opens : ¬ Opens ackDatagram := by
  rintro ⟨-, page, letter⟩
  have none : Page.ofByte (ofList ackDatagram 9) = none := by decide
  rw [none] at letter
  cases letter

theorem done_opens : ¬ Opens doneDatagram := by
  rintro ⟨-, page, letter⟩
  have none : Page.ofByte (ofList doneDatagram 9) = none := by decide
  rw [none] at letter
  cases letter

theorem done_replies : ¬ Replies doneDatagram := by
  rw [Replies]
  decide

end Fixed

end Altus
