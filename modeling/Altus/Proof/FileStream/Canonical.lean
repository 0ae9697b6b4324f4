import Altus.Proof.FileStream.Merging
import Altus.Proof.UBInsertion

namespace Altus.FileReceiveStream

open Bytes Runs UBList

/-- The entries by their distances to a base. -/
def distances (base : U32) (list : List (U32 × U32)) : List (Nat × Nat) :=
  list.map fun run => ((run.1 - base).toNat, (run.2 - base).toNat)

/-- At most 8 non-empty, increasing, disjoint and non-adjacent intervals beyond `lastSeq`, in the half range from
`base` on. -/
structure CanonicalList (base lastSeq : U32) (list : List (U32 × U32)) : Prop where
  few : list.length ≤ 8
  canonical : Runs.Canonical (distances base list)
  half : ∀ run ∈ list, (run.2 - base).toNat < 2 ^ 31
  beyond : ∀ run ∈ list, 0 < (run.1 - lastSeq).toInt

/-- The sequence numbers of one entry. -/
def entry (run : U32 × U32) : Set U32 := block run.1 (run.2 - run.1)

/-- The sequence numbers in the entries of a list. -/
def listCovers (list : List (U32 × U32)) : Set U32 := {point | ∃ run ∈ list, point ∈ entry run}

/-- The block begins where an entry ends and reaches into the next entry. -/
def CrossesNext (list : List (U32 × U32)) (seq length : U32) : Prop :=
  ∃ index run next, list[index]? = some run ∧ list[index + 1]? = some next ∧ run.2 = seq ∧
    (next.1 - seq).toNat < length.toNat

/-- The block fills the gap between `lastSeq` and the first entry. -/
def FillsGap (stream : FileRcvStream) (seq length : U32) : Prop :=
  seq = stream.lastSeq ∧ ∃ front, stream.ubList.head? = some front ∧ front.1 = seq + length

section Distances

variable {base seq length : U32} {list : List (U32 × U32)}

theorem mem_entry {run : U32 × U32} (ordered : (run.1 - base).toNat ≤ (run.2 - base).toNat) (point : U32) :
    point ∈ entry run ↔ (run.1 - base).toNat ≤ (point - base).toNat ∧ (point - base).toNat < (run.2 - base).toNat :=
  Serial.sub_lt_sub_iff point ordered

/-- A sequence number is in the list exactly when its distance is. -/
theorem mem_listCovers (ordered : ∀ run ∈ list, (run.1 - base).toNat ≤ (run.2 - base).toNat) (point : U32) :
    point ∈ listCovers list ↔ (point - base).toNat ∈ covered (distances base list) := by
  constructor
  · rintro ⟨run, member, inside⟩
    exact ⟨_, List.mem_map_of_mem member, (mem_entry (ordered run member) point).mp inside⟩
  · rintro ⟨run, member, inside⟩
    obtain ⟨old, listed, rfl⟩ := List.mem_map.mp member
    exact ⟨old, listed, (mem_entry (ordered old listed) point).mpr inside⟩

/-- A sequence number lies in the block exactly when its distance does. -/
theorem mem_block_distance (near : (seq - base).toNat + length.toNat < 2 ^ 31) (point : U32) :
    point ∈ block seq length ↔
      (point - base).toNat ∈ Set.Ico (seq - base).toNat ((seq - base).toNat + length.toNat) := by
  rw [mem_block near, Set.mem_Ico, Set.mem_Ico]
  simp only [unwrap]
  omega

theorem CanonicalList.ordered {lastSeq : U32} (canonical : CanonicalList base lastSeq list) :
    ∀ run ∈ list, (run.1 - base).toNat < (run.2 - base).toNat :=
  fun _ member => canonical.canonical.nonempty _ (List.mem_map_of_mem member)

end Distances

/-- What the loop of `CheckUB` answers when its insertion is exact. -/
def Answers (base seq length : U32) (room : Prop) (list : List (U32 × U32)) (answer : UBM × List (U32 × U32)) :
    Placement Nat → Prop
  | .overlap => answer = (.malicious, list) ∨ answer = (.overlap, list) ∧ ∃ run ∈ list,
      (run.1 - base).toNat ≤ (seq - base).toNat ∧ (seq - base).toNat + length.toNat ≤ (run.2 - base).toNat
  | .extended next => answer = (.full, list) ∨ answer.1 = .extended ∧ distances base answer.2 = next
  | .added next => answer = (.full, list) ∨ answer.1 = .added ∧ room ∧ distances base answer.2 = next

section Places

variable {base headSeq seq length : U32} {capacity size : Nat}

theorem Answers.after {room : Prop} {run : U32 × U32} {list : List (U32 × U32)} {answer : UBM × List (U32 × U32)}
    {placement : Placement Nat} (answers : Answers base seq length room list answer placement) :
    Answers base seq length room (run :: list) (answer.1, run :: answer.2)
      (placement.after ((run.1 - base).toNat, (run.2 - base).toNat)) := by
  cases placement with
  | overlap =>
      rcases answers with rfl | ⟨rfl, old, member, contained⟩
      · exact Or.inl rfl
      · exact Or.inr ⟨rfl, old, List.mem_cons_of_mem _ member, contained⟩
  | extended next =>
      rcases answers with rfl | ⟨message, same⟩
      · exact Or.inl rfl
      · exact Or.inr ⟨message, congrArg _ same⟩
  | added next =>
      rcases answers with rfl | ⟨message, space, same⟩
      · exact Or.inl rfl
      · exact Or.inr ⟨message, space, congrArg _ same⟩

/-- The comparisons of one visit, as comparisons of distances. -/
theorem visit_distances {run : U32 × U32} (near : (seq - base).toNat + length.toNat < 2 ^ 31)
    (nonempty : (run.1 - base).toNat < (run.2 - base).toNat) (upper : (run.2 - base).toNat < 2 ^ 31) :
    (0 < (run.1 - seq).toInt ↔ (seq - base).toNat < (run.1 - base).toNat) ∧
    (0 < (run.1 - (seq + length)).toInt ↔ (seq - base).toNat + length.toNat < (run.1 - base).toNat) ∧
    (0 < (run.2 - seq).toInt ↔ (seq - base).toNat < (run.2 - base).toNat) ∧
    (0 ≤ (run.2 - (seq + length)).toInt ↔ (seq - base).toNat + length.toNat ≤ (run.2 - base).toNat) := by
  have ends : (seq + length - base).toNat = (seq - base).toNat + length.toNat := Serial.distance_add (by omega)
  refine ⟨Serial.sub_pos_iff_of_base (by omega) (by omega), ?_, Serial.sub_pos_iff_of_base (by omega) (by omega), ?_⟩
  · rw [← ends]
    exact Serial.sub_pos_iff_of_base (by omega) (by omega)
  · rw [← ends]
    exact Serial.sub_nonneg_iff_of_base (by omega) (by omega)

/-- A block at the end of an entry extends it, up to the next one. -/
theorem checkUBFrom_adjacent (near : (seq - base).toNat + length.toNat < 2 ^ 31) {run : U32 × U32}
    {rest : List (U32 × U32)} (canonical : Runs.Canonical (distances base (run :: rest)))
    (clear : ¬ CrossesNext (run :: rest) seq length) (before : ¬ 0 < (run.1 - seq).toInt) (adjacent : seq = run.2)
    (lower : (run.1 - base).toNat ≤ (seq - base).toNat) :
    Answers base seq length (size < capacity) (run :: rest) (checkUBFrom headSeq capacity size seq length (run :: rest))
      (place (seq - base).toNat ((seq - base).toNat + length.toNat) (distances base (run :: rest))) := by
  have ends : (seq + length - base).toNat = (seq - base).toNat + length.toNat := Serial.distance_add (by omega)
  obtain ⟨-, separated, -⟩ := canonical_cons.mp canonical
  have inside : ¬ 0 < (run.2 - seq).toInt := by
    rw [adjacent, BitVec.sub_self]
    decide
  have touching : (seq - base).toNat = (run.2 - base).toNat := by rw [adjacent]
  rw [distances, List.map_cons, checkUBFrom.eq_def, place.eq_def]
  dsimp only
  rw [if_neg before, if_neg inside, if_pos adjacent, if_neg (not_lt.mpr lower), if_neg (not_lt.mpr touching.ge),
    if_pos touching]
  cases rest with
  | nil =>
      dsimp only [List.map_nil]
      split_ifs
      · exact Or.inl rfl
      · refine Or.inr ⟨rfl, ?_⟩
        rw [distances, List.map_singleton, ends]
  | cons next tail =>
      have gap : (run.2 - base).toNat < (next.1 - base).toNat := separated _ List.mem_cons_self
      rw [← adjacent] at gap
      have distance := Serial.toNat_sub_sub base seq next.1
      rw [if_pos gap.le] at distance
      have notCrossed : ¬ (next.1 - seq).toNat < length.toNat := fun crossed =>
        clear ⟨0, run, next, rfl, rfl, adjacent.symm, crossed⟩
      have bridgesIff := Serial.distance_inj base next.1 (seq + length)
      rw [ends] at bridgesIff
      rw [List.map_cons]
      dsimp only
      by_cases bridges : next.1 = seq + length
      · have same := bridgesIff.mpr bridges
        rw [if_neg (by rw [bridges, BitVec.sub_self]; decide), if_pos bridges, if_neg (by omega), if_pos same.symm]
        exact Or.inr ⟨rfl, rfl⟩
      · have differs : 0 < next.1 - (seq + length) := Serial.sub_pos_iff_ne.mpr bridges
        have apart : (next.1 - base).toNat ≠ (seq - base).toNat + length.toNat := fun same =>
          bridges (bridgesIff.mp same)
        have ahead : (seq - base).toNat + length.toNat < (next.1 - base).toNat := by omega
        rw [if_pos differs, if_pos ahead]
        split_ifs
        · exact Or.inl rfl
        · refine Or.inr ⟨rfl, ?_⟩
          rw [distances, List.map_cons, List.map_cons, ends]

/-- The loop of `CheckUB` inserts the block unless it crosses an entry. -/
theorem checkUBFrom_answers (near : (seq - base).toNat + length.toNat < 2 ^ 31) (list : List (U32 × U32))
    (canonical : Runs.Canonical (distances base list)) (half : ∀ run ∈ list, (run.2 - base).toNat < 2 ^ 31)
    (clear : ¬ CrossesNext list seq length) :
    Answers base seq length (size < capacity) list (checkUBFrom headSeq capacity size seq length list)
      (place (seq - base).toNat ((seq - base).toNat + length.toNat) (distances base list)) := by
  have ends : (seq + length - base).toNat = (seq - base).toNat + length.toNat := Serial.distance_add (by omega)
  induction list with
  | nil =>
      rw [checkUBFrom, distances, List.map_nil, place]
      split_ifs with space full
      · exact Or.inl rfl
      · refine Or.inr ⟨rfl, space, ?_⟩
        rw [distances, List.map_singleton, ends]
      · exact Or.inl rfl
  | cons run rest ih =>
      obtain ⟨nonempty, separated, later⟩ := canonical_cons.mp canonical
      obtain ⟨beforeIff, gapIff, insideIff, containedIff⟩ := visit_distances near nonempty (half run List.mem_cons_self)
      have joinsIff := Serial.distance_inj base (seq + length) run.1
      have adjacentIff := Serial.distance_inj base seq run.2
      rw [ends] at joinsIff
      by_cases before : 0 < (run.1 - seq).toInt
      · rw [distances, List.map_cons, checkUBFrom.eq_def, place.eq_def]
        dsimp only
        rw [if_pos before, if_pos (beforeIff.mp before)]
        by_cases gap : 0 < (run.1 - (seq + length)).toInt
        · rw [if_pos gap, if_pos (gapIff.mp gap)]
          split_ifs with space
          · refine Or.inr ⟨rfl, space, ?_⟩
            rw [distances, List.map_cons, List.map_cons, ends]
          · exact Or.inl rfl
        rw [if_neg gap, if_neg (fun less => gap (gapIff.mpr less))]
        by_cases joins : seq + length = run.1
        · rw [if_pos joins, if_pos (joinsIff.mpr joins)]
          exact Or.inr ⟨rfl, rfl⟩
        · rw [if_neg joins, if_neg (fun same => joins (joinsIff.mp same))]
          exact Or.inl rfl
      have lower : (run.1 - base).toNat ≤ (seq - base).toNat := not_lt.mp fun less => before (beforeIff.mpr less)
      by_cases adjacent : seq = run.2
      · exact checkUBFrom_adjacent near canonical clear before adjacent lower
      rw [distances, List.map_cons, checkUBFrom.eq_def, place.eq_def]
      dsimp only
      rw [if_neg before, if_neg (not_lt.mpr lower)]
      by_cases inside : 0 < (run.2 - seq).toInt
      · rw [if_pos inside, if_pos (insideIff.mp inside)]
        split_ifs with contained
        · exact Or.inr ⟨rfl, run, List.mem_cons_self, lower, containedIff.mp contained⟩
        · exact Or.inl rfl
      rw [if_neg inside, if_neg (fun less => inside (insideIff.mpr less)), if_neg adjacent,
        if_neg (fun same => adjacent (adjacentIff.mp same))]
      apply Answers.after
      apply ih later (fun run member => half run (List.mem_cons_of_mem _ member))
      rintro ⟨index, one, two, here, following, crossing⟩
      exact clear ⟨index + 1, one, two, here, following, crossing⟩

/-- The loop of `CheckUB` extends an entry into the next one, or finds no room for that. -/
theorem checkUBFrom_crossing (near : (seq - base).toNat + length.toNat < 2 ^ 31) {list : List (U32 × U32)}
    (canonical : Runs.Canonical (distances base list)) (half : ∀ run ∈ list, (run.2 - base).toNat < 2 ^ 31)
    (crosses : CrossesNext list seq length) :
    (checkUBFrom headSeq capacity size seq length list).1 ≠ .malicious := by
  obtain ⟨index, run, next, here, following, ends, reaches⟩ := crosses
  induction list generalizing index with
  | nil => cases here
  | cons front rest ih =>
      obtain ⟨currentHS, currentTS⟩ := front
      obtain ⟨nonempty, separated, later⟩ := canonical_cons.mp canonical
      obtain ⟨beforeIff, -, insideIff, -⟩ := visit_distances near nonempty (half _ List.mem_cons_self)
      dsimp only at nonempty separated beforeIff insideIff
      rw [checkUBFrom.eq_def]
      dsimp only
      cases index with
      | zero =>
          obtain rfl : (currentHS, currentTS) = run := Option.some.inj here
          dsimp only at ends
          subst ends
          rw [if_neg (by omega), if_neg (by omega), if_pos rfl]
          cases rest with
          | nil => cases following
          | cons second tail =>
              obtain rfl : second = next := Option.some.inj following
              have differs : 0 < second.1 - (currentTS + length) := by
                rw [Serial.sub_pos_iff_ne]
                intro same
                rw [same, add_sub_cancel_left] at reaches
                exact lt_irrefl _ reaches
              dsimp only
              rw [if_pos differs]
              split_ifs <;> simp
      | succ index =>
          rw [List.getElem?_cons_succ] at here following
          -- The entry ends before the one that the block continues.
          have member := List.mem_of_getElem? here
          have gap := separated _ (List.mem_map_of_mem member)
          have behind := later.nonempty _ (List.mem_map_of_mem member)
          dsimp only at gap behind
          rw [ends] at behind
          have other : ¬ seq = currentTS := by
            rintro rfl
            omega
          rw [if_neg (by omega), if_neg (by omega), if_neg other]
          exact ih later (fun run member => half run (List.mem_cons_of_mem _ member)) index here following

end Places

section Accepts

variable {base lastSeq seq length : U32} {list next : List (U32 × U32)}

/-- A list that lists the union of the old set and the block is canonical again. -/
theorem CanonicalList.admits (canonical : CanonicalList base lastSeq list)
    (near : (seq - base).toNat + length.toNat < 2 ^ 31) (positive : 1 ≤ length.toNat)
    (ahead : 0 < (seq - lastSeq).toInt) (few : next.length ≤ 8)
    (admits : (place (seq - base).toNat ((seq - base).toNat + length.toNat) (distances base list)).admits
      (distances base next)) :
    CanonicalList base lastSeq next ∧ listCovers next = listCovers list ∪ block seq length := by
  have grows : (seq - base).toNat < (seq - base).toNat + length.toNat := by omega
  have admitted := place_admits grows.le canonical.canonical.sorted admits
  have nonempty := place_nonempty grows canonical.canonical admits
  have ordered (run : U32 × U32) (member : run ∈ next) : (run.1 - base).toNat < (run.2 - base).toNat :=
    nonempty _ (List.mem_map_of_mem member)
  refine ⟨⟨few, ⟨nonempty, admitted.sorted.separated⟩, ?_, ?_⟩, ?_⟩
  · intro run member
    rcases admitted.ends _ (List.mem_map_of_mem member) with last | ⟨old, listed, same⟩
    · dsimp only at last
      omega
    · obtain ⟨entry, inList, rfl⟩ := List.mem_map.mp listed
      have bound := canonical.half entry inList
      dsimp only at same
      omega
  · intro run member
    rcases admitted.starts _ (List.mem_map_of_mem member) with first | ⟨old, listed, same⟩
    · rw [(Serial.distance_inj base run.1 seq).mp first]
      exact ahead
    · obtain ⟨entry, inList, rfl⟩ := List.mem_map.mp listed
      rw [(Serial.distance_inj base run.1 entry.1).mp same]
      exact canonical.beyond entry inList
  · ext point
    rw [Set.mem_union, mem_listCovers (fun run member => (ordered run member).le), admitted.union, Set.mem_union,
      mem_listCovers (fun run member => (canonical.ordered run member).le), mem_block_distance near]

/-- A block that overlaps an entry meets the covered distances. -/
theorem CanonicalList.meets (canonical : CanonicalList base lastSeq list)
    (near : (seq - base).toNat + length.toNat < 2 ^ 31) {run : U32 × U32} (member : run ∈ list)
    (overlaps : ¬ Disjoint (block seq length) (entry run)) :
    ¬ Disjoint (Set.Ico (seq - base).toNat ((seq - base).toNat + length.toNat)) (covered (distances base list)) := by
  intro apart
  apply overlaps
  rw [Set.disjoint_left] at apart ⊢
  intro point inBlock inEntry
  apply apart ((mem_block_distance near point).mp inBlock)
  exact ⟨_, List.mem_map_of_mem member, (mem_entry (canonical.ordered run member).le point).mp inEntry⟩

end Accepts

/-- What one block does to a canonical list of a stream. -/
structure KeepsCanonical (base : U32) (state : FileState) (seq length : U32) (data : Memory) : Prop where
  accepted : Placed (checkUB state.stream seq length).1 →
    CanonicalList base state.stream.lastSeq (checkUB state.stream seq length).2 ∧
      listCovers (checkUB state.stream seq length).2 = listCovers state.stream.ubList ∪ block seq length
  /-- A block that overlaps an entry and lies inside no entry. -/
  overlapping : (∃ run ∈ state.stream.ubList, ¬ Disjoint (block seq length) (entry run)) →
    (∀ run ∈ state.stream.ubList, ¬ block seq length ⊆ entry run) →
    checkUB state.stream seq length = (.malicious, state.stream.ubList)
  /-- A merging `Append` leaves no entry at or below the new `lastSeq`. -/
  merged : (checkUB state.stream seq length).1 = .merging → ∃ code next,
    append state seq length data = (.returned code, next) ∧
      ∀ run ∈ next.stream.ubList, 0 < (run.1 - next.stream.lastSeq).toInt

section Keeps

variable {base seq length : U32} {state : FileState} {data : Memory}

/-- An entry does not begin beyond its own end. -/
theorem CanonicalList.start_behind {lastSeq : U32} {list : List (U32 × U32)}
    (canonical : CanonicalList base lastSeq list) {run : U32 × U32} (member : run ∈ list) :
    ¬ 0 < (run.1 - run.2).toInt := by
  have nonempty := canonical.ordered run member
  have upper := canonical.half run member
  rw [@Serial.sub_pos_iff_of_base 32 base _ _ (by omega) (by omega)]
  omega

/-- A block at `lastSeq` that ends before the first entry meets no entry. -/
theorem CanonicalList.disjoint_before {lastSeq : U32} {front : U32 × U32} {rest : List (U32 × U32)}
    (canonical : CanonicalList base lastSeq (front :: rest)) (near : (seq - base).toNat + length.toNat < 2 ^ 31)
    (before : 0 < (front.1 - (seq + length)).toInt) {run : U32 × U32} (member : run ∈ front :: rest) :
    Disjoint (block seq length) (entry run) := by
  by_contra overlaps
  apply canonical.meets near member overlaps
  have nonempty := canonical.ordered front List.mem_cons_self
  have upper := canonical.half front List.mem_cons_self
  have ends : (seq + length - base).toNat = (seq - base).toNat + length.toNat := Serial.distance_add (by omega)
  rw [@Serial.sub_pos_iff_of_base 32 base _ _ (by omega) (by omega), ends] at before
  rw [Set.disjoint_left]
  rintro point ⟨-, below⟩ ⟨later, listed, above, -⟩
  have lower := canonical.canonical.sorted.head_le later listed
  dsimp only at lower
  omega

/-- A block at `lastSeq` that does not fill the gap. -/
theorem KeepsCanonical.of_sequenced (canonical : CanonicalList base state.stream.lastSeq state.stream.ubList)
    (near : (seq - base).toNat + length.toNat < 2 ^ 31) (sequenced : seq = state.stream.lastSeq)
    (gap : ¬ FillsGap state.stream seq length) : KeepsCanonical base state seq length data := by
  have checked : checkUB state.stream seq length = (.onSeq, state.stream.ubList) ∧
      (∀ run ∈ state.stream.ubList, Disjoint (block seq length) (entry run)) ∨
      checkUB state.stream seq length = (.malicious, state.stream.ubList) := by
    rw [checkUB, if_pos sequenced]
    cases list : state.stream.ubList with
    | nil => exact Or.inl ⟨rfl, by simp⟩
    | cons front rest =>
        rw [list] at canonical
        dsimp only
        by_cases before : 0 < (front.1 - (seq + length)).toInt
        · rw [if_pos before]
          exact Or.inl ⟨rfl, fun run member => canonical.disjoint_before near before member⟩
        rw [if_neg before]
        by_cases touches : front.1 = seq + length
        · exact absurd ⟨sequenced, front, by rw [list, List.head?_cons], touches⟩ gap
        · rw [if_neg touches]
          exact Or.inr rfl
  rcases checked with ⟨checked, apart⟩ | checked
  · refine ⟨?_, ?_, ?_⟩ <;> rw [checked]
    · simp [Placed]
    · rintro ⟨run, member, overlaps⟩
      exact absurd (apart run member) overlaps
    · simp
  · refine ⟨?_, fun _ _ => checked, ?_⟩ <;> rw [checked]
    · simp [Placed]
    · simp

/-- A block beyond `lastSeq` that crosses no entry. -/
theorem KeepsCanonical.of_clear (canonical : CanonicalList base state.stream.lastSeq state.stream.ubList)
    (reserved : state.stream.capacity = 8) (positive : 1 ≤ length.toNat)
    (near : (seq - base).toNat + length.toNat < 2 ^ 31) (ahead : 0 < (seq - state.stream.lastSeq).toInt)
    (clear : ¬ CrossesNext state.stream.ubList seq length) : KeepsCanonical base state seq length data := by
  have other : ¬ seq = state.stream.lastSeq := by
    rintro rfl
    simp at ahead
  have few := canonical.few
  have answers := @checkUBFrom_answers base state.stream.headSeq seq length state.stream.capacity
    state.stream.ubList.length near state.stream.ubList canonical.canonical canonical.half clear
  obtain ⟨-, unmerged, -⟩ := checkUBFrom_front state.stream.headSeq state.stream.capacity
    state.stream.ubList.length seq length state.stream.ubList
  have checked : checkUB state.stream seq length = checkUBFrom state.stream.headSeq state.stream.capacity
      state.stream.ubList.length seq length state.stream.ubList := by
    rw [checkUB, if_neg other]
  rw [← checked] at answers unmerged
  have grows : (seq - base).toNat ≤ (seq - base).toNat + length.toNat := by omega
  have count : (checkUB state.stream seq length).2.length ≤ 8 := by
    rw [checked]
    have edits := @checkUBFrom_edits state.stream.headSeq state.stream.capacity state.stream.ubList.length seq length
      state.stream.ubList
    rcases edits.length_le with same | ⟨space, longer⟩ <;> omega
  refine ⟨?_, ?_, fun merging => absurd merging unmerged⟩
  · intro placed
    apply canonical.admits near positive ahead count
    cases placement : place (seq - base).toNat ((seq - base).toNat + length.toNat)
        (distances base state.stream.ubList) with
    | overlap =>
        rw [placement] at answers
        rcases answers with answer | ⟨answer, -⟩ <;> simp [answer, Placed] at placed
    | extended next =>
        rw [placement] at answers
        rcases answers with answer | ⟨-, same⟩
        · simp [answer, Placed] at placed
        · exact same.symm
    | added next =>
        rw [placement] at answers
        rcases answers with answer | ⟨-, -, same⟩
        · simp [answer, Placed] at placed
        · exact same.symm
  · rintro ⟨run, member, overlaps⟩ outside
    have meets := canonical.meets near member overlaps
    cases placement : place (seq - base).toNat ((seq - base).toNat + length.toNat)
        (distances base state.stream.ubList) with
    | overlap =>
        rw [placement] at answers
        rcases answers with malicious | ⟨-, host, listed, above, below⟩
        · exact malicious
        · refine absurd (fun point inside => ?_) (outside host listed)
          rw [mem_entry (canonical.ordered host listed).le]
          have bounds := (mem_block_distance near point).mp inside
          exact ⟨above.trans bounds.1, bounds.2.trans_le below⟩
    | extended next | added next =>
        exact absurd (place_admits grows canonical.canonical.sorted (by rw [placement]; rfl)).apart meets

/-- A block that crosses an entry overlaps the next one and lies inside none, and is not answered so. -/
theorem not_keepsCanonical_of_crossing (canonical : CanonicalList base state.stream.lastSeq state.stream.ubList)
    (positive : 1 ≤ length.toNat) (near : (seq - base).toNat + length.toNat < 2 ^ 31)
    (inTime : 0 ≤ (seq - state.stream.lastSeq).toInt) (crosses : CrossesNext state.stream.ubList seq length) :
    ¬ KeepsCanonical base state seq length data := by
  intro keeps
  obtain ⟨index, run, next, here, following, ends, reaches⟩ := id crosses
  have listed := List.mem_of_getElem? here
  have member := List.mem_of_getElem? following
  have inside : seq ∈ block seq length := by
    show (seq - seq).toNat < length.toNat
    rw [BitVec.sub_self]
    exact positive
  have uncovered : seq ∉ listCovers state.stream.ubList := by
    rw [mem_listCovers (fun run member => (canonical.ordered run member).le), ← ends]
    exact canonical.canonical.end_not_covered (List.mem_map_of_mem listed)
  have overlaps : ¬ Disjoint (block seq length) (entry next) := by
    rw [Set.disjoint_left]
    intro apart
    apply @apart next.1 reaches
    rw [mem_entry (canonical.ordered next member).le]
    exact ⟨le_rfl, canonical.ordered next member⟩
  have other : ¬ seq = state.stream.lastSeq := by
    rintro rfl
    exact canonical.start_behind listed (ends ▸ canonical.beyond run listed)
  have answer := keeps.overlapping ⟨next, member, overlaps⟩ fun host hosted contained =>
    uncovered ⟨host, hosted, contained inside⟩
  rw [checkUB, if_neg other] at answer
  exact checkUBFrom_crossing near canonical.canonical canonical.half crosses (congrArg Prod.fst answer)

/-- A block that fills the gap merges with the first entry, which stays in the list. -/
theorem not_keepsCanonical_of_filling (canonical : CanonicalList base state.stream.lastSeq state.stream.ubList)
    (fills : FillsGap state.stream seq length) :
    ¬ KeepsCanonical base state seq length data := by
  intro keeps
  obtain ⟨sequenced, front, first, touches⟩ := fills
  have merging : (checkUB state.stream seq length).1 = .merging := by
    rw [checkUB, if_pos sequenced]
    cases list : state.stream.ubList with
    | nil =>
        rw [list] at first
        cases first
    | cons head rest =>
        rw [list, List.head?_cons] at first
        obtain rfl := Option.some.inj first
        dsimp only
        rw [if_neg (by rw [touches, BitVec.sub_self]; decide), if_pos touches]
  obtain ⟨code, next, returned, beyond⟩ := keeps.merged merging
  obtain ⟨head, rest, old, -, -, list, moved⟩ := append_merging_returned merging returned
  have member : head ∈ state.stream.ubList := by
    rw [old]
    exact List.mem_cons_self
  have ahead := beyond head (by rw [list]; exact List.mem_cons_self)
  rw [moved] at ahead
  exact canonical.start_behind member ahead

/-- `CheckUB` and `Append` keep a canonical list exactly when the block neither crosses an entry nor fills the gap
before the first one. -/
theorem keepsCanonical_iff (canonical : CanonicalList base state.stream.lastSeq state.stream.ubList)
    (reserved : state.stream.capacity = 8) (positive : 1 ≤ length.toNat)
    (near : (seq - base).toNat + length.toNat < 2 ^ 31) (inTime : 0 ≤ (seq - state.stream.lastSeq).toInt) :
    KeepsCanonical base state seq length data ↔
      ¬ CrossesNext state.stream.ubList seq length ∧ ¬ FillsGap state.stream seq length := by
  constructor
  · intro keeps
    exact ⟨fun crosses => not_keepsCanonical_of_crossing canonical positive near inTime crosses keeps,
      fun fills => not_keepsCanonical_of_filling canonical fills keeps⟩
  · rintro ⟨clear, gap⟩
    by_cases sequenced : seq = state.stream.lastSeq
    · exact KeepsCanonical.of_sequenced canonical near sequenced gap
    · apply KeepsCanonical.of_clear canonical reserved positive near ?_ clear
      have differs : (seq - state.stream.lastSeq).toNat ≠ 0 := by
        intro zero
        exact sequenced (sub_eq_zero.mp (BitVec.toNat_inj.mp zero))
      rw [Serial.toInt_nonneg] at inTime
      rw [Serial.toInt_pos]
      omega

end Keeps

/-- A stream that holds two blocks of four bytes, ten bytes apart. -/
def twoWaiting : FileState := (append fourWaiting 20 4 (fun _ => 7)).2

theorem twoWaiting_ubList : twoWaiting.stream.ubList = [(10, 14), (20, 24)] := by decide

theorem twoWaiting_canonical : CanonicalList 0 twoWaiting.stream.lastSeq twoWaiting.stream.ubList := by
  have last : twoWaiting.stream.lastSeq = 0 := by decide
  rw [twoWaiting_ubList, last]
  refine ⟨by decide, ⟨?_, ?_⟩, ?_, ?_⟩
  · decide
  · simp [distances]
  · rw [List.forall_mem_cons, List.forall_mem_singleton]
    decide
  · rw [List.forall_mem_cons, List.forall_mem_singleton]
    decide

/-- The bytes between the two blocks join them. -/
theorem keepsCanonical_iff_between : KeepsCanonical 0 twoWaiting 14 6 (fun _ => 7) := by
  refine (keepsCanonical_iff twoWaiting_canonical rfl (by decide) (by decide) (by decide)).mpr ⟨?_, ?_⟩
  · rintro ⟨index, run, next, -, following, -, reaches⟩
    rw [twoWaiting_ubList] at following
    cases index with
    | zero =>
        obtain rfl := Option.some.inj following
        revert reaches
        decide
    | succ index => cases following
  · rintro ⟨sequenced, -⟩
    revert sequenced
    decide

/-- A block that continues the first entry into the second one extends the first over it. -/
theorem crossing_not_keepsCanonical : CanonicalList 0 twoWaiting.stream.lastSeq twoWaiting.stream.ubList ∧
    checkUB twoWaiting.stream 14 8 = (.extended, [(10, 22), (20, 24)]) ∧
    ¬ KeepsCanonical 0 twoWaiting 14 8 (fun _ => 7) := by
  refine ⟨twoWaiting_canonical, by decide, ?_⟩
  apply not_keepsCanonical_of_crossing twoWaiting_canonical (by decide) (by decide) (by decide)
  rw [twoWaiting_ubList]
  exact ⟨0, (10, 14), (20, 24), rfl, rfl, rfl, by decide⟩

end Altus.FileReceiveStream
