import Altus.Library.Serial
import Altus.Proof.FileStream.Owners

namespace Altus.FileReceiveStream

open Bytes

section Refusal

variable {headSeq : U32} {capacity size : Nat} {seq length : U32}

/-- The answers with which `Append` refuses a block. -/
def Refuses (message : UBM) : Prop := message = .full ∨ message = .malicious ∨ message = .overlap

instance (message : UBM) : Decidable (Refuses message) := inferInstanceAs (Decidable (_ ∨ _ ∨ _))

/-- How the loop of `CheckUB` answers, and the list after it, with the tests that lead to each change. -/
inductive Edits (headSeq : U32) (capacity size : Nat) (seq length : U32) :
    List (U32 × U32) → UBM → List (U32 × U32) → Prop
  | refused {list : List (U32 × U32)} {message : UBM} (refuses : Refuses message) :
      Edits headSeq capacity size seq length list message list
  | alone (room : size < capacity) (near : ¬ maxSpan ≤ seq + length - headSeq) :
      Edits headSeq capacity size seq length [] .added [(seq, seq + length)]
  | before {run : U32 × U32} {rest : List (U32 × U32)} (ahead : 0 < (run.1 - seq).toInt)
      (gap : 0 < (run.1 - (seq + length)).toInt) (room : size < capacity) :
      Edits headSeq capacity size seq length (run :: rest) .added ((seq, seq + length) :: run :: rest)
  | joins {run : U32 × U32} {rest : List (U32 × U32)} (ahead : 0 < (run.1 - seq).toInt) (ends : seq + length = run.1) :
      Edits headSeq capacity size seq length (run :: rest) .extended ((seq, run.2) :: rest)
  | continues {run : U32 × U32} {rest : List (U32 × U32)} (adjacent : seq = run.2)
      (near : ¬ maxSpan ≤ seq + length - headSeq) :
      Edits headSeq capacity size seq length (run :: rest) .extended ((run.1, seq + length) :: rest)
  | bridges {run next : U32 × U32} {tail : List (U32 × U32)} (adjacent : seq = run.2) (ends : next.1 = seq + length) :
      Edits headSeq capacity size seq length (run :: next :: tail) .extended ((run.1, next.2) :: tail)
  | later {run : U32 × U32} {rest list : List (U32 × U32)} {message : UBM}
      (edits : Edits headSeq capacity size seq length rest message list) :
      Edits headSeq capacity size seq length (run :: rest) message (run :: list)

theorem checkUBFrom_edits (list : List (U32 × U32)) : Edits headSeq capacity size seq length list
    (checkUBFrom headSeq capacity size seq length list).1 (checkUBFrom headSeq capacity size seq length list).2 := by
  have full {list : List (U32 × U32)} : Edits headSeq capacity size seq length list .full list := .refused (Or.inl rfl)
  have malicious {list : List (U32 × U32)} : Edits headSeq capacity size seq length list .malicious list :=
    .refused (Or.inr (Or.inl rfl))
  have overlap {list : List (U32 × U32)} : Edits headSeq capacity size seq length list .overlap list :=
    .refused (Or.inr (Or.inr rfl))
  induction list with
  | nil =>
      rw [checkUBFrom]
      split_ifs with room near
      · exact full
      · exact .alone room near
      · exact full
  | cons run rest ih =>
      rw [checkUBFrom.eq_def]
      dsimp only
      by_cases ahead : 0 < (run.1 - seq).toInt
      · rw [if_pos ahead]
        split_ifs with gap room joins
        · exact .before ahead gap room
        · exact full
        · exact .joins ahead joins
        · exact malicious
      rw [if_neg ahead]
      by_cases inside : 0 < (run.2 - seq).toInt
      · rw [if_pos inside]
        split_ifs
        · exact overlap
        · exact malicious
      rw [if_neg inside]
      by_cases adjacent : seq = run.2
      · rw [if_pos adjacent]
        cases rest with
        | nil =>
            dsimp only
            split_ifs with near
            · exact full
            · exact .continues adjacent near
        | cons next tail =>
            dsimp only
            split_ifs with apart near bridges
            · exact full
            · exact .continues adjacent near
            · exact .bridges adjacent bridges
            · exact malicious
      · rw [if_neg adjacent]
        exact .later ih

/-- The loop of `CheckUB` refuses a block before it changes an entry. -/
theorem Edits.unchanged {list next : List (U32 × U32)} {message : UBM}
    (edits : Edits headSeq capacity size seq length list message next) (refused : Refuses message) : next = list := by
  induction edits with
  | refused => rfl
  | later _ ih => exact congrArg _ (ih refused)
  | _ => simp [Refuses] at refused

/-- The ends of the entries after `CheckUB` are ends of entries before it, or of the block. -/
theorem Edits.ends {list next : List (U32 × U32)} {message : UBM} (near : U32 → Prop)
    (edits : Edits headSeq capacity size seq length list message next) (start : near seq)
    (stop : near (seq + length)) (entries : ∀ run ∈ list, near run.1 ∧ near run.2) :
    ∀ run ∈ next, near run.1 ∧ near run.2 := by
  induction edits with
  | refused => exact entries
  | alone => exact List.forall_mem_singleton.mpr ⟨start, stop⟩
  | before => exact List.forall_mem_cons.mpr ⟨⟨start, stop⟩, entries⟩
  | joins =>
      obtain ⟨first, later⟩ := List.forall_mem_cons.mp entries
      exact List.forall_mem_cons.mpr ⟨⟨start, first.2⟩, later⟩
  | continues =>
      obtain ⟨first, later⟩ := List.forall_mem_cons.mp entries
      exact List.forall_mem_cons.mpr ⟨⟨first.1, stop⟩, later⟩
  | bridges =>
      obtain ⟨first, second, later⟩ := (List.forall_mem_cons.mp entries).imp id List.forall_mem_cons.mp
      exact List.forall_mem_cons.mpr ⟨⟨first.1, second.2⟩, later⟩
  | later _ ih =>
      obtain ⟨first, later⟩ := List.forall_mem_cons.mp entries
      exact List.forall_mem_cons.mpr ⟨first, ih later⟩

/-- A block at `lastSeq` changes no entry. -/
theorem checkUB_sequenced {stream : FileRcvStream} (sequenced : seq = stream.lastSeq) :
    (checkUB stream seq length).2 = stream.ubList := by
  rw [checkUB, if_pos sequenced]
  split
  · rfl
  · split_ifs <;> rfl

theorem checkUB_refused {stream : FileRcvStream} (refused : Refuses (checkUB stream seq length).1) :
    (checkUB stream seq length).2 = stream.ubList := by
  by_cases sequenced : seq = stream.lastSeq
  · exact checkUB_sequenced sequenced
  · rw [checkUB, if_neg sequenced] at refused ⊢
    exact (checkUBFrom_edits stream.ubList).unchanged refused

/-- `Append` answers -1 or -2, or it throws its error about a malicious packet. -/
def Rejected (outcome : Outcome) : Prop :=
  outcome = .returned (-1) ∨ outcome = .returned (-2) ∨ outcome = .threw "malicious packet"

/-- A part that ends with 0 or 1 is no rejection. -/
theorem finish_not_rejected {code : Int} (accepted : 0 ≤ code) (part : Part) : ¬ Rejected (finish code part).1 := by
  cases part with
  | error failed => simp [finish, Rejected]
  | ok state =>
      simp only [finish, Rejected, Outcome.returned.injEq, reduceCtorEq, or_false]
      omega

/-- A rejected `Append` leaves everything but `unSeqLen` as it was. -/
theorem append_rejected_intact {state next : FileState} {data : Memory} {outcome : Outcome}
    (appended : append state seq length data = (outcome, next)) (rejected : Rejected outcome) :
    ∃ unSeqLen, next = { state with stream := { state.stream with unSeqLen := unSeqLen } } := by
  rw [append] at appended
  dsimp only at appended
  split at appended
  · exact ⟨state.stream.unSeqLen, (congrArg Prod.snd appended).symm⟩
  have kept := @checkUB_refused seq length state.stream
  generalize checkUB state.stream seq length = answer at appended kept
  obtain ⟨message, ubList⟩ := answer
  dsimp only at appended kept
  cases message with
  | full | malicious | overlap =>
      obtain rfl := kept (by simp [Refuses])
      exact ⟨_, (congrArg Prod.snd appended).symm⟩
  | extended | added | onSeq =>
      obtain rfl : _ = outcome := congrArg Prod.fst appended
      exact absurd rejected (finish_not_rejected (by decide) _)
  | merging =>
      obtain rfl : _ = outcome := congrArg Prod.fst appended
      cases ubList with
      | nil => simp [Rejected] at rejected
      | cons front rest => exact absurd rejected (finish_not_rejected (by decide) _)

end Refusal

/-- A stream that holds the four bytes from 10 on. -/
def fourWaiting : FileState := (append (fileRcvStream blankNodes NodePool.empty 8) 10 4 (fun _ => 7)).2

/-- A block that ends inside the waiting bytes is malicious. -/
theorem append_rejected_intact_overlapping : ∃ unSeqLen,
    (append fourWaiting 8 4 (fun _ => 7)).1 = .threw "malicious packet" ∧
    (append fourWaiting 8 4 (fun _ => 7)).2 =
      { fourWaiting with stream := { fourWaiting.stream with unSeqLen := unSeqLen } } := by
  have threw : (append fourWaiting 8 4 (fun _ => 7)).1 = .threw "malicious packet" := by decide
  have parts : append fourWaiting 8 4 (fun _ => 7) =
      ((append fourWaiting 8 4 (fun _ => 7)).1, (append fourWaiting 8 4 (fun _ => 7)).2) := rfl
  obtain ⟨unSeqLen, intact⟩ := append_rejected_intact parts (Or.inr (Or.inr threw))
  exact ⟨unSeqLen, threw, intact⟩

section Limit

variable {headSeq lastSeq : U32} {capacity size : Nat} {seq length : U32}

/-- An entry is not empty, does not begin before `lastSeq` and ends within the limit after `headSeq`. -/
def WithinLimit (headSeq lastSeq : U32) (run : U32 × U32) : Prop :=
  (lastSeq - headSeq).toNat ≤ (run.1 - headSeq).toNat ∧ (run.1 - headSeq).toNat < (run.2 - headSeq).toNat ∧
    (run.2 - headSeq).toNat < maxSpan.toNat

/-- The list fits into its vector, and all its entries end within the limit. -/
structure Limited (stream : FileRcvStream) : Prop where
  few : stream.ubList.length ≤ 8
  last : (stream.lastSeq - stream.headSeq).toNat < maxSpan.toNat
  entries : ∀ run ∈ stream.ubList, WithinLimit stream.headSeq stream.lastSeq run

/-- The loop of `CheckUB` adds an entry only when the vector has room for it. -/
theorem Edits.length_le {list next : List (U32 × U32)} {message : UBM}
    (edits : Edits headSeq capacity size seq length list message next) :
    next.length ≤ list.length ∨ size < capacity ∧ next.length = list.length + 1 := by
  induction edits with
  | refused => exact Or.inl le_rfl
  | alone room => exact Or.inr ⟨room, rfl⟩
  | before _ _ room => exact Or.inr ⟨room, rfl⟩
  | joins => exact Or.inl le_rfl
  | continues => exact Or.inl le_rfl
  | bridges => exact Or.inl (Nat.le_succ _)
  | later _ ih => simpa using ih

/-- The loop of `CheckUB` keeps the entries within the limit. -/
theorem Edits.withinLimit {list next : List (U32 × U32)} {message : UBM}
    (edits : Edits headSeq capacity size seq length list message next)
    (lastNear : (lastSeq - headSeq).toNat < maxSpan.toNat) (ahead : (lastSeq - headSeq).toNat < (seq - headSeq).toNat)
    (near : (seq - headSeq).toNat ≤ (lastSeq - headSeq).toNat + 2 ^ 31) (positive : 1 ≤ length.toNat)
    (short : length.toNat ≤ 488) (entries : ∀ run ∈ list, WithinLimit headSeq lastSeq run) :
    ∀ run ∈ next, WithinLimit headSeq lastSeq run := by
  have limit : maxSpan.toNat = 2 ^ 26 := rfl
  have ends : (seq + length - headSeq).toNat = (seq - headSeq).toNat + length.toNat := Serial.distance_add (by omega)
  have room (below : ¬ maxSpan ≤ seq + length - headSeq) : (seq - headSeq).toNat + length.toNat < maxSpan.toNat := by
    rw [← ends]
    exact BitVec.not_le.mp below
  induction edits with
  | refused => exact entries
  | alone _ below =>
      have bound := room below
      rw [List.forall_mem_singleton]
      refine ⟨ahead.le, ?_, ?_⟩ <;> dsimp only <;> omega
  | @before run rest first gap =>
      obtain ⟨above, nonempty, within⟩ := entries run List.mem_cons_self
      rw [@Serial.sub_pos_iff_of_base 32 headSeq _ _ (by omega) (by omega)] at first
      rw [@Serial.sub_pos_iff_of_base 32 headSeq _ _ (by omega) (by omega)] at gap
      refine List.forall_mem_cons.mpr ⟨⟨ahead.le, ?_, ?_⟩, entries⟩ <;> dsimp only <;> omega
  | @joins run rest _ joined =>
      obtain ⟨⟨-, nonempty, within⟩, later⟩ := List.forall_mem_cons.mp entries
      rw [← joined] at nonempty
      refine List.forall_mem_cons.mpr ⟨⟨ahead.le, ?_, within⟩, later⟩
      dsimp only
      omega
  | @continues run rest adjacent below =>
      have bound := room below
      obtain ⟨⟨above, nonempty, -⟩, later⟩ := List.forall_mem_cons.mp entries
      rw [← adjacent] at nonempty
      refine List.forall_mem_cons.mpr ⟨⟨above, ?_, ?_⟩, later⟩ <;> dsimp only <;> omega
  | @bridges run next tail adjacent joined =>
      obtain ⟨⟨above, nonempty, -⟩, ⟨-, nextNonempty, within⟩, later⟩ :=
        (List.forall_mem_cons.mp entries).imp id List.forall_mem_cons.mp
      rw [← adjacent] at nonempty
      rw [joined] at nextNonempty
      refine List.forall_mem_cons.mpr ⟨⟨above, ?_, within⟩, later⟩
      dsimp only
      omega
  | later _ ih =>
      obtain ⟨first, later⟩ := List.forall_mem_cons.mp entries
      exact List.forall_mem_cons.mpr ⟨first, ih later⟩

/-- `CheckUB` keeps the list within the capacity of its vector and all entries within the limit. -/
theorem checkUB_limited {stream : FileRcvStream} (limited : Limited stream) (reserved : stream.capacity = 8)
    (inTime : ¬ 0 < (stream.lastSeq - seq).toInt) (positive : 1 ≤ length.toNat) (short : length.toNat ≤ 488) :
    (checkUB stream seq length).2.length ≤ stream.capacity ∧
      Limited { stream with ubList := (checkUB stream seq length).2 } := by
  have few := limited.few
  by_cases sequenced : seq = stream.lastSeq
  · rw [checkUB_sequenced sequenced]
    exact ⟨by omega, limited⟩
  rw [checkUB, if_neg sequenced]
  have edits := @checkUBFrom_edits stream.headSeq stream.capacity stream.ubList.length seq length stream.ubList
  have count : (checkUBFrom stream.headSeq stream.capacity stream.ubList.length seq length
      stream.ubList).2.length ≤ 8 := by
    rcases edits.length_le with same | ⟨space, longer⟩ <;> omega
  have last := limited.last
  have limit : maxSpan.toNat = 2 ^ 26 := rfl
  have other : (seq - stream.headSeq).toNat ≠ (stream.lastSeq - stream.headSeq).toNat := by
    intro same
    exact sequenced (sub_left_inj.mp (BitVec.toNat_inj.mp same))
  obtain ⟨behind, near⟩ := @Serial.distance_of_not_behind 32 stream.headSeq _ _ inTime (by omega)
  have reach : (seq - stream.headSeq).toNat ≤ (stream.lastSeq - stream.headSeq).toNat + 2 ^ 31 := by omega
  refine ⟨by omega, count, last, ?_⟩
  exact edits.withinLimit last (lt_of_le_of_ne behind other.symm) reach positive short limited.entries

end Limit

/-- A stream whose list ends just below the limit takes no further byte there. -/
theorem checkUB_limited_last :
    (checkUB { fourWaiting.stream with ubList := [(67108862, 67108863)] } 67108863 1).2 = [(67108862, 67108863)] ∧
      Limited { fourWaiting.stream with
        ubList := (checkUB { fourWaiting.stream with ubList := [(67108862, 67108863)] } 67108863 1).2 } := by
  have limited : Limited { fourWaiting.stream with ubList := [(67108862, 67108863)] } := by
    refine ⟨by decide, by decide, ?_⟩
    intro run member
    obtain rfl := List.mem_singleton.mp member
    exact ⟨by decide, by decide, by decide⟩
  exact ⟨by decide, (checkUB_limited limited rfl (by decide) (by decide) (by decide)).2⟩

end Altus.FileReceiveStream
