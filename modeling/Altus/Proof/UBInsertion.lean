import Altus.Proof.UBList

namespace Altus.UBList

open Runs

/-- The first `count` entries are non-empty, increasing, disjoint and non-adjacent intervals, and all their
ends lie in the half range from `base` on. -/
structure Ordered (base : U32) (ubList : UBList) : Prop where
  few : ubList.count.toNat ≤ 8
  nonempty : ∀ index < ubList.count.toNat,
    (ubList.headSeq index - base).toNat < (ubList.tailSeq index - base).toNat
  half : ∀ index < ubList.count.toNat, (ubList.tailSeq index - base).toNat < 2 ^ 31
  apart : ∀ index later, index < later → later < ubList.count.toNat →
    (ubList.tailSeq index - base).toNat < (ubList.headSeq later - base).toNat

/-- The sequence numbers from `seq` on, as many as `length`. -/
def block (seq length : U32) : Set U32 := {point | (point - seq).toNat < length.toNat}

/-- The sequence numbers in the first `count` entries. -/
def covers (ubList : UBList) : Set U32 :=
  {point | ∃ index < ubList.count.toNat,
    (point - ubList.headSeq index).toNat < (ubList.tailSeq index - ubList.headSeq index).toNat}

/-- An entry ends where the block begins, or begins where the block ends. -/
def TouchesEntry (ubList : UBList) (seq length : U32) : Prop :=
  ∃ index < ubList.count.toNat, ubList.tailSeq index = seq ∨ ubList.headSeq index = seq + length

/-- Two lists have the same first `count` entries. -/
def SameEntries (first second : UBList) : Prop :=
  first.count = second.count ∧ ∀ index < first.count.toNat,
    first.headSeq index = second.headSeq index ∧ first.tailSeq index = second.tailSeq index

/-- Blocks arrive one after the other, and every one of them is accepted. -/
def admitAll (ubList : UBList) : List (U32 × U32) → Option UBList
  | [] => some ubList
  | (seq, length) :: rest =>
      if (altusUBCheck ubList seq length).1 = ubenumUBExtended ∨
          (altusUBCheck ubList seq length).1 = ubenumNewUBAdded then
        admitAll (altusUBCheck ubList seq length).2 rest
      else none

/-- What one call answers and leaves behind, in terms of the covered set. -/
structure Inserts (base : U32) (ubList : UBList) (seq length : U32) (answer : Int × UBList) : Prop where
  extended : answer.1 = ubenumUBExtended ↔
    Disjoint (block seq length) ubList.covers ∧ ubList.TouchesEntry seq length
  added : answer.1 = ubenumNewUBAdded ↔ Disjoint (block seq length) ubList.covers ∧
    ¬ ubList.TouchesEntry seq length ∧ ubList.count.toNat < 8
  full : answer.1 = ubenumFull ↔ Disjoint (block seq length) ubList.covers ∧
    ¬ ubList.TouchesEntry seq length ∧ ubList.count.toNat = 8
  malicious : answer.1 = ubenumMaliciousInput ↔ ¬ Disjoint (block seq length) ubList.covers
  accepted : answer.1 = ubenumUBExtended ∨ answer.1 = ubenumNewUBAdded →
    Ordered base answer.2 ∧ answer.2.covers = ubList.covers ∪ block seq length
  refused : answer.1 = ubenumFull ∨ answer.1 = ubenumMaliciousInput → answer.2 = ubList

section Positions

variable {base : U32} {ubList : UBList} {runs : List (Nat × Nat)}

/-- The position of a sequence number at or after `base`. -/
def unwrap (base seq : U32) : Nat := base.toNat + (seq - base).toNat

theorem ofNat_unwrap (base seq : U32) : BitVec.ofNat 32 (unwrap base seq) = seq := by
  have distance := Serial.ofNat_add_distance base.toNat seq
  rwa [Serial.ofNat_toNat] at distance

theorem unwrap_ofNat {position : Nat} (lower : base.toNat ≤ position) (near : position < base.toNat + 2 ^ 32) :
    unwrap base (BitVec.ofNat 32 position) = position := by
  have distance := @Serial.toNat_sub 32 position base.toNat lower near
  rw [Serial.ofNat_toNat] at distance
  rw [unwrap, distance, Nat.add_sub_of_le lower]

/-- The listed intervals in positions. -/
def runsFrom (base : U32) (ubList : UBList) : List (Nat × Nat) :=
  (List.range ubList.count.toNat).map fun index =>
    (unwrap base (ubList.headSeq index), unwrap base (ubList.tailSeq index))

theorem runsFrom_length (base : U32) (ubList : UBList) : (runsFrom base ubList).length = ubList.count.toNat := by
  simp [runsFrom]

theorem lists_runsFrom (base : U32) (ubList : UBList) : Lists ubList (runsFrom base ubList) := by
  constructor
  · rw [runsFrom_length, Serial.ofNat_toNat]
  · intro index run found
    obtain ⟨inside, rfl⟩ := List.getElem?_eq_some_iff.mp found
    simp only [runsFrom, List.getElem_map, List.getElem_range, ofNat_unwrap, and_self]

/-- An ordered list is canonical in positions. -/
theorem Ordered.canonical (ordered : Ordered base ubList) :
    Canonical (runsFrom base ubList) ∧ Within base.toNat (runsFrom base ubList) := by
  refine ⟨⟨?_, ?_⟩, ?_⟩
  · intro run member
    obtain ⟨index, inside, rfl⟩ := List.mem_map.mp member
    have nonempty := ordered.nonempty index (List.mem_range.mp inside)
    simp only [unwrap]
    omega
  · rw [List.pairwise_iff_getElem]
    intro index later inside laterInside before
    rw [runsFrom_length] at laterInside
    have apart := ordered.apart index later before laterInside
    simp only [runsFrom, List.getElem_map, List.getElem_range, unwrap]
    omega
  · intro run member
    obtain ⟨index, inside, rfl⟩ := List.mem_map.mp member
    have nonempty := ordered.nonempty index (List.mem_range.mp inside)
    have half := ordered.half index (List.mem_range.mp inside)
    simp only [unwrap]
    omega

/-- A canonical list of positions in the half range is ordered. -/
theorem Lists.ordered (lists : Lists ubList runs) (few : runs.length ≤ 8) (canonical : Canonical runs)
    (within : Within base.toNat runs) : Ordered base ubList := by
  have count := lists.count_toNat few
  have entry (index : Nat) (inside : index < runs.length) :
      (ubList.headSeq index - base).toNat = runs[index].1 - base.toNat ∧
        (ubList.tailSeq index - base).toNat = runs[index].2 - base.toNat ∧
        base.toNat ≤ runs[index].1 ∧ runs[index].1 < runs[index].2 ∧ runs[index].2 < base.toNat + 2 ^ 31 := by
    have bounds := within runs[index] (List.getElem_mem inside)
    have nonempty := canonical.nonempty runs[index] (List.getElem_mem inside)
    obtain ⟨head, tail⟩ := lists.entry index runs[index] (List.getElem?_eq_getElem inside)
    have headDistance := @Serial.toNat_sub 32 runs[index].1 base.toNat bounds.1 (by omega)
    have tailDistance := @Serial.toNat_sub 32 runs[index].2 base.toNat (by omega) (by omega)
    rw [Serial.ofNat_toNat] at headDistance tailDistance
    rw [head, tail]
    exact ⟨headDistance, tailDistance, bounds.1, nonempty, bounds.2.2⟩
  refine ⟨by omega, ?_, ?_, ?_⟩
  · intro index inside
    have ends := entry index (by omega)
    omega
  · intro index inside
    have ends := entry index (by omega)
    omega
  · intro index later before inside
    have ends := entry index (by omega)
    have laterEnds := entry later (by omega)
    have gap := List.pairwise_iff_getElem.mp canonical.separated index later (by omega) (by omega) before
    omega

/-- A sequence number is covered exactly when its position is. -/
theorem Lists.mem_covers (lists : Lists ubList runs) (few : runs.length ≤ 8) (canonical : Canonical runs)
    (within : Within base.toNat runs) (point : U32) :
    point ∈ ubList.covers ↔ unwrap base point ∈ covered runs := by
  have count := lists.count_toNat few
  have ordered := lists.ordered few canonical within
  have inEntry (index : Nat) (inside : index < runs.length) :
      (point - ubList.headSeq index).toNat < (ubList.tailSeq index - ubList.headSeq index).toNat ↔
        runs[index].1 ≤ unwrap base point ∧ unwrap base point < runs[index].2 := by
    have bounds := within runs[index] (List.getElem_mem inside)
    obtain ⟨head, tail⟩ := lists.entry index runs[index] (List.getElem?_eq_getElem inside)
    have headIs := @unwrap_ofNat base runs[index].1 bounds.1 (by omega)
    have tailIs := @unwrap_ofNat base runs[index].2 (by omega) (by omega)
    have nonempty := ordered.nonempty index (by omega)
    rw [Serial.sub_lt_sub_iff point nonempty.le]
    rw [← head] at headIs
    rw [← tail] at tailIs
    simp only [unwrap] at headIs tailIs ⊢
    omega
  constructor
  · rintro ⟨index, inside, member⟩
    rw [count] at inside
    exact ⟨runs[index], List.getElem_mem inside, (inEntry index inside).mp member⟩
  · rintro ⟨run, member, reached⟩
    obtain ⟨index, inside, rfl⟩ := List.mem_iff_getElem.mp member
    exact ⟨index, by omega, (inEntry index inside).mpr reached⟩

end Positions

section Insertion

variable {base seq length : U32} {ubList : UBList}

/-- A sequence number lies in the block exactly when its position does. -/
theorem mem_block (near : (seq - base).toNat + length.toNat < 2 ^ 31) (point : U32) :
    point ∈ block seq length ↔ unwrap base point ∈ Set.Ico (unwrap base seq) (unwrap base seq + length.toNat) := by
  have small := (point - base).isLt
  rw [block, Set.mem_ofPred_eq, Serial.toNat_sub_sub base seq point, Set.mem_Ico]
  simp only [unwrap]
  split <;> omega

/-- Two sets of sequence numbers are disjoint when their positions are. -/
theorem disjoint_covers {runs : List (Nat × Nat)} (lists : Lists ubList runs) (few : runs.length ≤ 8)
    (canonical : Canonical runs) (within : Within base.toNat runs)
    (near : (seq - base).toNat + length.toNat < 2 ^ 31) :
    Disjoint (block seq length) ubList.covers ↔
      Disjoint (Set.Ico (unwrap base seq) (unwrap base seq + length.toNat)) (covered runs) := by
  have below : unwrap base seq + length.toNat < base.toNat + 2 ^ 31 := by
    rw [unwrap]
    omega
  have lower : base.toNat ≤ unwrap base seq := Nat.le_add_right _ _
  rw [Set.disjoint_left, Set.disjoint_left]
  constructor
  · intro apart position inside member
    have positionIs := @unwrap_ofNat base position (by have := inside.1; omega) (by have := inside.2; omega)
    apply @apart (BitVec.ofNat 32 position)
    · rw [mem_block near, positionIs]
      exact inside
    · rw [lists.mem_covers few canonical within, positionIs]
      exact member
  · intro apart point inside member
    exact apart ((mem_block near point).mp inside) ((lists.mem_covers few canonical within point).mp member)

/-- An entry touches the block exactly when its positions do. -/
theorem touches_iff {runs : List (Nat × Nat)} (lists : Lists ubList runs) (few : runs.length ≤ 8)
    (within : Within base.toNat runs) (near : (seq - base).toNat + length.toNat < 2 ^ 31) :
    ubList.TouchesEntry seq length ↔ Touches (unwrap base seq) (unwrap base seq + length.toNat) runs := by
  have count := lists.count_toNat few
  have ends : seq + length = BitVec.ofNat 32 (unwrap base seq + length.toNat) := by
    rw [BitVec.ofNat_add, ofNat_unwrap, Serial.ofNat_toNat]
  have seqIs : unwrap base seq = base.toNat + (seq - base).toNat := rfl
  have entry (index : Nat) (inside : index < runs.length) :
      (ubList.tailSeq index = seq ∨ ubList.headSeq index = seq + length) ↔
        (runs[index].2 = unwrap base seq ∨ runs[index].1 = unwrap base seq + length.toNat) := by
    have bounds := within runs[index] (List.getElem_mem inside)
    obtain ⟨head, tail⟩ := lists.entry index runs[index] (List.getElem?_eq_getElem inside)
    have first : ubList.tailSeq index = seq ↔ runs[index].2 = unwrap base seq := by
      rw [tail, ← Serial.ofNat_inj (show runs[index].2 < unwrap base seq + 2 ^ 32 by omega) (by omega),
        ofNat_unwrap]
    have second : ubList.headSeq index = seq + length ↔ runs[index].1 = unwrap base seq + length.toNat := by
      rw [head, ends, Serial.ofNat_inj (by omega) (by omega)]
    rw [first, second]
  constructor
  · rintro ⟨index, inside, touching⟩
    rw [count] at inside
    exact ⟨runs[index], List.getElem_mem inside, (entry index inside).mp touching⟩
  · rintro ⟨run, member, touching⟩
    obtain ⟨index, inside, rfl⟩ := List.mem_iff_getElem.mp member
    exact ⟨index, by omega, (entry index inside).mpr touching⟩

/-- A list that lists the union of the old set and the block. -/
theorem Lists.accepts {runs next : List (Nat × Nat)} {answer : UBList} (lists : Lists ubList runs)
    (few : runs.length ≤ 8) (canonical : Canonical runs) (within : Within base.toNat runs)
    (near : (seq - base).toNat + length.toNat < 2 ^ 31) (listed : Lists answer next) (nextFew : next.length ≤ 8)
    (nextCanonical : Canonical next) (union : covered next = covered runs ∪
      Set.Ico (unwrap base seq) (unwrap base seq + length.toNat)) :
    Ordered base answer ∧ answer.covers = ubList.covers ∪ block seq length := by
  have below : unwrap base seq + length.toNat < base.toNat + 2 ^ 31 := by
    rw [unwrap]
    omega
  have lower : base.toNat ≤ unwrap base seq := Nat.le_add_right _ _
  have bounded : covered next ⊆ Set.Ico base.toNat (base.toNat + 2 ^ 31 - 1) := by
    rw [union]
    intro point member
    rcases member with ⟨run, listedRun, above, under⟩ | ⟨above, under⟩
    · have bounds := within run listedRun
      exact ⟨by omega, by omega⟩
    · exact ⟨by omega, by omega⟩
  have nextWithin : Within base.toNat next := by
    intro run member
    have nonempty := nextCanonical.nonempty run member
    have start := (bounded (nextCanonical.start_covered member)).1
    have ends := nextCanonical.end_le (fun point inside => (bounded inside).2) member
    exact ⟨start, nonempty.le, by omega⟩
  refine ⟨listed.ordered nextFew nextCanonical nextWithin, ?_⟩
  ext point
  rw [listed.mem_covers nextFew nextCanonical nextWithin, union, Set.mem_union, Set.mem_union,
    lists.mem_covers few canonical within, mem_block near]

/-- One call inserts the block into the covered set, or leaves the list as it is. -/
theorem Ordered.inserts (ordered : Ordered base ubList) (positive : 0 < length.toNat)
    (near : (seq - base).toNat + length.toNat < 2 ^ 31) :
    Inserts base ubList seq length (altusUBCheck ubList seq length) := by
  obtain ⟨canonical, within⟩ := ordered.canonical
  have lists := lists_runsFrom base ubList
  have count := runsFrom_length base ubList
  have few : (runsFrom base ubList).length ≤ 8 := count ▸ ordered.few
  have below : unwrap base seq + length.toNat < base.toNat + 2 ^ 31 := by
    rw [unwrap]
    omega
  have lower : base.toNat ≤ unwrap base seq := Nat.le_add_right _ _
  have grows : unwrap base seq < unwrap base seq + length.toNat := by omega
  have follows := altusUBCheck_follows lists few within lower grows.le below
  rw [Nat.add_sub_cancel_left, ofNat_unwrap, Serial.ofNat_toNat] at follows
  have placed := place_spec grows canonical
  have apartIff := disjoint_covers lists few canonical within near
  have touchIff := touches_iff lists few within near
  cases answered : place (unwrap base seq) (unwrap base seq + length.toNat) (runsFrom base ubList) with
  | overlap =>
      rw [answered] at follows placed
      obtain ⟨point, above, under, member⟩ := placed
      have meets : ¬ Disjoint (block seq length) ubList.covers := by
        rw [apartIff, Set.disjoint_left]
        intro apart
        exact apart ⟨above, under⟩ member
      rw [show altusUBCheck ubList seq length = (ubenumMaliciousInput, ubList) from follows]
      constructor <;> simp [meets]
  | extended next =>
      rw [answered] at follows placed
      obtain ⟨nextCanonical, apart, union, touching, -, fewer⟩ := placed
      obtain ⟨code, listed⟩ := follows
      have accepted := lists.accepts few canonical within near listed (fewer.trans few) nextCanonical union
      constructor <;> simp [code, apartIff.mpr apart, touchIff.mpr touching, accepted]
  | added next =>
      rw [answered] at follows placed
      obtain ⟨nextCanonical, apart, union, touchesNone, longer⟩ := placed
      have alone : ¬ ubList.TouchesEntry seq length := fun touching => touchesNone (touchIff.mp touching)
      rw [Follows] at follows
      split at follows
      · rename_i room
        rw [List.nil_append] at room
        have space : ubList.count.toNat < 8 := by omega
        obtain ⟨code, listed⟩ := follows
        have accepted := lists.accepts few canonical within near listed room nextCanonical union
        constructor <;> simp [code, apartIff.mpr apart, alone, accepted, space, space.ne]
      · rename_i room
        rw [List.nil_append] at room
        have exhausted : ubList.count.toNat = 8 := by omega
        rw [follows]
        constructor <;> simp [apartIff.mpr apart, alone, exhausted]

end Insertion

section Orders

variable {base : U32} {ubList : UBList}

/-- A block of at least one byte whose ends lie in the half range. -/
def InHalf (base : U32) (arrival : U32 × U32) : Prop :=
  1 ≤ arrival.2.toNat ∧ (arrival.1 - base).toNat + arrival.2.toNat < 2 ^ 31

/-- The sequence numbers of several blocks. -/
def blocks (arrivals : List (U32 × U32)) : Set U32 := {point | ∃ arrival ∈ arrivals, point ∈ block arrival.1 arrival.2}

/-- Accepted blocks add exactly their own sequence numbers. -/
theorem Ordered.admitAll {arrivals : List (U32 × U32)} {final : UBList} (ordered : Ordered base ubList)
    (inHalf : ∀ arrival ∈ arrivals, InHalf base arrival) (admitted : ubList.admitAll arrivals = some final) :
    Ordered base final ∧ final.covers = ubList.covers ∪ blocks arrivals := by
  induction arrivals generalizing ubList with
  | nil =>
      obtain rfl := Option.some.inj admitted
      exact ⟨ordered, by simp [blocks]⟩
  | cons arrival rest ih =>
      obtain ⟨seq, length⟩ := arrival
      obtain ⟨positive, near⟩ := inHalf (seq, length) (by simp)
      rw [UBList.admitAll] at admitted
      split at admitted
      · rename_i accepted
        obtain ⟨nextOrdered, union⟩ := (ordered.inserts positive near).accepted accepted
        obtain ⟨finalOrdered, all⟩ := ih nextOrdered
          (fun later member => inHalf later (List.mem_cons_of_mem _ member)) admitted
        refine ⟨finalOrdered, ?_⟩
        ext point
        rw [all, union]
        simp only [blocks, Set.mem_union, Set.mem_ofPred_eq, List.mem_cons, exists_eq_or_imp]
        tauto
      · cases admitted

/-- Two ordered lists of one set have the same entries. -/
theorem Ordered.sameEntries {first second : UBList} (one : Ordered base first) (other : Ordered base second)
    (same : first.covers = second.covers) : SameEntries first second := by
  have canonical := one.canonical
  have otherCanonical := other.canonical
  have few : (runsFrom base first).length ≤ 8 := runsFrom_length base first ▸ one.few
  have otherFew : (runsFrom base second).length ≤ 8 := runsFrom_length base second ▸ other.few
  have member := (lists_runsFrom base first).mem_covers few canonical.1 canonical.2
  have otherMember := (lists_runsFrom base second).mem_covers otherFew otherCanonical.1 otherCanonical.2
  -- Every covered position is the position of a sequence number, so the sets of positions agree too.
  have positions {runs : List (Nat × Nat)} (within : Within base.toNat runs) {position : Nat}
      (inside : position ∈ covered runs) : unwrap base (BitVec.ofNat 32 position) = position := by
    obtain ⟨run, listed, above, below⟩ := inside
    have bounds := within run listed
    exact unwrap_ofNat (by omega) (by omega)
  have equal : runsFrom base first = runsFrom base second := by
    apply canonical.1.eq_of_covered otherCanonical.1
    ext position
    constructor
    · intro inside
      have positionIs := positions canonical.2 inside
      rw [← positionIs, ← member, same, otherMember, positionIs] at inside
      exact inside
    · intro inside
      have positionIs := positions otherCanonical.2 inside
      rw [← positionIs, ← otherMember, ← same, member, positionIs] at inside
      exact inside
  have lists := lists_runsFrom base first
  have otherLists := lists_runsFrom base second
  rw [← equal] at otherLists
  refine ⟨lists.count.trans otherLists.count.symm, ?_⟩
  intro index inside
  rw [← runsFrom_length base] at inside
  have here := lists.entry index _ (List.getElem?_eq_getElem inside)
  have there := otherLists.entry index _ (List.getElem?_eq_getElem inside)
  exact ⟨here.1.trans there.1.symm, here.2.trans there.2.symm⟩

end Orders

/-- `altusUBCheck` is the exact insertion into a set of intervals, and the order of accepted blocks leaves no trace. -/
theorem altusUBCheck_inserts {base : U32} {ubList : UBList} (ordered : Ordered base ubList) :
    (∀ seq length : U32, InHalf base (seq, length) →
      Inserts base ubList seq length (altusUBCheck ubList seq length)) ∧
    ∀ first second : List (U32 × U32), first.Perm second → (∀ arrival ∈ first, InHalf base arrival) →
      ∀ one other, ubList.admitAll first = some one → ubList.admitAll second = some other →
        SameEntries one other := by
  constructor
  · intro seq length inHalf
    exact ordered.inserts inHalf.1 inHalf.2
  · intro first second perm inHalf one other admitted otherAdmitted
    obtain ⟨oneOrdered, oneCovers⟩ := ordered.admitAll inHalf admitted
    obtain ⟨otherOrdered, otherCovers⟩ := ordered.admitAll
      (fun arrival member => inHalf arrival (perm.mem_iff.mpr member)) otherAdmitted
    apply oneOrdered.sameEntries otherOrdered
    rw [oneCovers, otherCovers]
    congr 1
    ext point
    simp only [blocks, Set.mem_ofPred_eq, perm.mem_iff]

/-- One interval of ten bytes across the wrap of the sequence numbers. -/
def wrapped : UBList := ⟨fun _ => 0xFFFFFFF8#32, fun _ => 2#32, 1⟩

theorem wrapped_ordered : Ordered 0xFFFFFFF0#32 wrapped := by
  refine ⟨by decide, fun index _ => ?_, fun index _ => ?_, ?_⟩
  · show (0xFFFFFFF8#32 - 0xFFFFFFF0#32).toNat < (2#32 - 0xFFFFFFF0#32).toNat
    decide
  · show (2#32 - 0xFFFFFFF0#32).toNat < 2 ^ 31
    decide
  · intro index later before inside
    have single : wrapped.count.toNat = 1 := rfl
    omega

/-- A block continues the interval across the wrap, and a block apart from both may come before or after it. -/
theorem altusUBCheck_inserts_wrapped :
    Inserts 0xFFFFFFF0#32 wrapped 2 3 (altusUBCheck wrapped 2 3) ∧
    SameEntries ((wrapped.admitAll [(2, 3), (7, 1)]).getD wrapped) ((wrapped.admitAll [(7, 1), (2, 3)]).getD wrapped) :=
  ⟨(altusUBCheck_inserts wrapped_ordered).1 2 3 ⟨by decide, by decide⟩,
    (altusUBCheck_inserts wrapped_ordered).2 [(2, 3), (7, 1)] [(7, 1), (2, 3)] (List.Perm.swap ..)
      (by simp [InHalf]) _ _ rfl rfl⟩

end Altus.UBList
