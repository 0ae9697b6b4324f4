import Altus.Proof.Window.View

namespace Altus.WindowedQueue

open Bytes Runs UBList

/-- The check of `altusWQPut` against a full window passes. -/
def PassesWindow (window : WQWindow) (seq length : U32) : Prop :=
  ¬ window.windowSize < window.safeLen + ((seq + length - window.lastSeq) / nodeSpan + 1)

instance (window : WQWindow) (seq length : U32) : Decidable (PassesWindow window seq length) :=
  inferInstanceAs (Decidable (¬ _))

/-- The three checks of `altusWQPut` before the copy all pass. -/
def Accepts (window : WQWindow) (seq length : U32) : Prop :=
  ¬ 0 < (window.lastSeq - seq).toInt ∧ PassesWindow window seq length ∧
  ((altusUBCheck window.ubList seq length).1 = ubenumUBExtended ∨
    (altusUBCheck window.ubList seq length).1 = ubenumNewUBAdded)

instance (window : WQWindow) (seq length : U32) : Decidable (Accepts window seq length) :=
  inferInstanceAs (Decidable (_ ∧ _ ∧ _))

/-- The code of a call that does not pass the checks. -/
def refusal (window : WQWindow) (seq length : U32) : Int :=
  if 0 < (window.lastSeq - seq).toInt then -2
  else if window.windowSize < window.safeLen + ((seq + length - window.lastSeq) / nodeSpan + 1) then -3
  else if (altusUBCheck window.ubList seq length).1 = ubenumFull then -4
  else -5

theorem refusal_neg (window : WQWindow) (seq length : U32) : refusal window seq length < 0 := by
  rw [refusal]
  split_ifs <;> decide

/-- The state after `altusUBCheck` listed the block. -/
def listBlock (state : WQState) (seq length : U32) : WQState :=
  { state with window := { state.window with ubList := (altusUBCheck state.window.ubList seq length).2 } }

/-- The part of `altusWQPut` after its checks. -/
def deliver (state : WQState) (seq length : U32) (data : Memory) : Except Fault (Int × List Copy × WQState) :=
  match copyLoop length data (length.toNat + 2) state (some state.window.safeTail)
      (state.window.lastSeq - (state.heap.node state.window.safeTail).validBlockCount) seq length with
  | .error fault => .error fault
  | .ok (copies, state) =>
      match absorb state with
      | .error fault => .error fault
      | .ok state => .ok (0, copies, state)

/-- A call either passes all checks and delivers the block, or answers its refusal and changes nothing. -/
theorem altusWQPut_eq (state : WQState) (seq length : U32) (data : Memory) :
    altusWQPut state seq length data =
      if Accepts state.window seq length then deliver (listBlock state seq length) seq length data
      else .ok (refusal state.window seq length, [], state) := by
  rw [altusWQPut]
  dsimp only
  by_cases late : 0 < (state.window.lastSeq - seq).toInt
  · rw [if_pos late, if_neg (fun accepts => accepts.1 late), refusal, if_pos late]
  by_cases full : state.window.windowSize <
      state.window.safeLen + ((seq + length - state.window.lastSeq) / nodeSpan + 1)
  · rw [if_neg late, if_pos full, if_neg (fun accepts => accepts.2.1 full), refusal, if_neg late, if_pos full]
  rw [if_neg late, if_neg full]
  rcases altusUBCheck_answers state.window.ubList seq length with listed | ⟨code, same⟩
  · rw [if_pos (show Accepts state.window seq length from ⟨late, full, listed⟩)]
    rcases listed with code | code <;> simp only [code] <;> rfl
  · have refused : ¬ Accepts state.window seq length := by
      rintro ⟨-, -, listed⟩
      rcases code with code | code <;> rw [code] at listed <;> revert listed <;> decide
    rw [if_neg refused, refusal, if_neg late, if_neg full]
    rcases code with code | code <;> simp only [code, same] <;> rfl

/-- A refused call changes nothing. -/
theorem altusWQPut_refused {state : WQState} {seq length : U32} (data : Memory)
    (refused : ¬ Accepts state.window seq length) :
    altusWQPut state seq length data = .ok (refusal state.window seq length, [], state) := by
  rw [altusWQPut_eq, if_neg refused]

/-- Only a delivered block is answered with zero. -/
theorem altusWQPut_zero {state : WQState} {seq length : U32} {data : Memory} {copies : List Copy}
    {next : WQState} (answered : altusWQPut state seq length data = .ok (0, copies, next)) :
    Accepts state.window seq length ∧
      deliver (listBlock state seq length) seq length data = .ok (0, copies, next) := by
  rw [altusWQPut_eq] at answered
  split at answered
  · exact ⟨by assumption, answered⟩
  · have negative := refusal_neg state.window seq length
    obtain ⟨code, -⟩ := Prod.mk.inj (Except.ok.inj answered)
    omega

/-- A delivered block is answered with zero. -/
theorem deliver_zero {state : WQState} {seq length : U32} {data : Memory} {code : Int} {copies : List Copy}
    {next : WQState} (delivered : deliver state seq length data = .ok (code, copies, next)) : code = 0 := by
  rw [deliver] at delivered
  split at delivered
  · cases delivered
  · split at delivered
    · cases delivered
    · exact (Prod.mk.inj (Except.ok.inj delivered)).1.symm

/-- A completed call answers zero, or refuses the block and changes nothing. -/
theorem altusWQPut_completed {state : WQState} {seq length : U32} {data : Memory} {code : Int}
    {copies : List Copy} {next : WQState} (answered : altusWQPut state seq length data = .ok (code, copies, next)) :
    code = 0 ∨ code < 0 ∧ next = state := by
  rw [altusWQPut_eq] at answered
  split at answered
  · left
    exact deliver_zero answered
  · right
    obtain ⟨codeIs, rest⟩ := Prod.mk.inj (Except.ok.inj answered)
    exact ⟨codeIs ▸ refusal_neg state.window seq length, (Prod.mk.inj rest).2.symm⟩

/-- An accepted block starts at most one half range beyond `lastSeq`. -/
theorem Accepts.short {window : WQWindow} {seq length : U32} (accepts : Accepts window seq length)
    (small : length.toNat < 2 ^ 31) : (seq - window.lastSeq).toNat + length.toNat < 2 ^ 32 := by
  have notLate := accepts.1
  have opposite : seq - window.lastSeq = -(window.lastSeq - seq) := by
    rw [BitVec.neg_sub, BitVec.sub_eq_add_neg, BitVec.add_comm]
  have bound := (window.lastSeq - seq).isLt
  rw [Serial.toInt_pos] at notLate
  rw [opposite, BitVec.toNat_neg]
  omega

/-- The copy loop only reads the bytes of the block. -/
theorem copyLoop_congr {length : U32} {first second : Memory}
    (agree : ∀ index < length.toNat, first index = second index) (rounds : Nat) :
    ∀ (state : WQState) (currentNode : Option Ptr) (currentNodeSeq leftSeq leftLen : U32),
      leftLen.toNat ≤ length.toNat →
      copyLoop length first rounds state currentNode currentNodeSeq leftSeq leftLen =
        copyLoop length second rounds state currentNode currentNodeSeq leftSeq leftLen := by
  induction rounds with
  | zero =>
      intro state currentNode currentNodeSeq leftSeq leftLen within
      rfl
  | succ rounds ih =>
      intro state currentNode currentNodeSeq leftSeq leftLen within
      have source : (length - leftLen).toNat = length.toNat - leftLen.toNat := by
        rw [BitVec.toNat_sub]
        have bound := length.isLt
        omega
      rw [copyLoop.eq_def, copyLoop.eq_def length second]
      dsimp only
      split
      · rfl
      cases currentNode with
      | none => rfl
      | some current =>
          dsimp only
          split
          · split
            · rfl
            · exact ih _ _ _ _ _ within
          · generalize countIs : (if leftLen < currentNodeSeq + nodeSpan - leftSeq then leftLen
              else currentNodeSeq + nodeSpan - leftSeq) = writelen
            have fits : writelen.toNat ≤ leftLen.toNat := by
              rw [← countIs]
              split
              · exact le_rfl
              · rename_i long
                rw [BitVec.lt_def] at long
                omega
            have rest : (leftLen - writelen).toNat ≤ length.toNat := by
              rw [BitVec.toNat_sub]
              have bound := leftLen.isLt
              omega
            have bytes (dest : Memory) (offset : Nat) :
                memcpy dest offset (shift first (length - leftLen).toNat) writelen.toNat =
                  memcpy dest offset (shift second (length - leftLen).toNat) writelen.toNat := by
              apply memcpy_congr
              intro index inside
              rw [shift, shift, agree _ (by omega)]
            have copied (offset : Nat) :
                copyInto state current ⟨offset, writelen.toNat⟩ (shift first (length - leftLen).toNat) =
                  copyInto state current ⟨offset, writelen.toNat⟩ (shift second (length - leftLen).toNat) := by
              simp only [copyInto, bytes]
            simp only [copied, ih _ _ _ _ _ rest]

/-- `altusWQPut` only reads the bytes of its block. -/
theorem altusWQPut_congr (state : WQState) (seq : U32) {length : U32} {first second : Memory}
    (agree : ∀ index < length.toNat, first index = second index) :
    altusWQPut state seq length first = altusWQPut state seq length second := by
  rw [altusWQPut_eq, altusWQPut_eq, deliver, deliver, copyLoop_congr agree _ _ _ _ _ _ le_rfl]

section Geometry

variable {state : WQState} {view : View} {seq length : U32}

/-- The first position at or after `lastSeq` that a sequence number stands for. -/
def firstPosition (state : WQState) (view : View) (seq : U32) : Nat :=
  view.position + (seq - state.window.lastSeq).toNat

theorem firstPosition_lastSeq (state : WQState) (view : View) :
    firstPosition state view state.window.lastSeq = view.position := by
  rw [firstPosition, BitVec.sub_self]
  rfl

theorem Pending.seq_eq (pending : Pending state view) :
    BitVec.ofNat 32 (firstPosition state view seq) = seq := by
  rw [firstPosition, pending.lastSeq]
  exact Serial.ofNat_add_distance view.position seq

/-- A block that passes the window check ends inside the window. -/
theorem Pending.passes_inside (pending : Pending state view) (passes : PassesWindow state.window seq length)
    (short : (seq - state.window.lastSeq).toNat + length.toNat < 2 ^ 32) :
    firstPosition state view seq + length.toNat + 1 <
      view.origin + 4096 * state.window.windowSize.toNat := by
  have size := pending.size
  have shallow := pending.shallow
  have ordered := pending.ordered
  have distance : seq + length - state.window.lastSeq =
      BitVec.ofNat 32 ((seq - state.window.lastSeq).toNat + length.toNat) := by
    rw [BitVec.ofNat_add, Serial.ofNat_toNat, Serial.ofNat_toNat, BitVec.sub_eq_add_neg,
      BitVec.sub_eq_add_neg, BitVec.add_assoc, BitVec.add_assoc, BitVec.add_comm length]
  have one : (1 : U32).toNat = 1 := rfl
  have span : nodeSpan.toNat = 4096 := rfl
  rw [PassesWindow, distance, pending.safeLen, BitVec.lt_def, BitVec.toNat_add, BitVec.toNat_add, BitVec.toNat_udiv,
    BitVec.toNat_ofNat, BitVec.toNat_ofNat, Nat.mod_eq_of_lt short, one, span] at passes
  simp only [View.depth, firstPosition] at *
  omega

/-- An accepted block ends inside the window. -/
theorem Pending.accepts_inside (pending : Pending state view) (accepts : Accepts state.window seq length)
    (short : (seq - state.window.lastSeq).toNat + length.toNat < 2 ^ 32) :
    firstPosition state view seq + length.toNat + 1 <
      view.origin + 4096 * state.window.windowSize.toNat :=
  pending.passes_inside accepts.2.1 short

/-- The listed positions lie within one half range. -/
theorem Pending.within (pending : Pending state view) : Within view.origin view.runs := by
  intro run member
  have reached := pending.reached run member
  have ordered := pending.ordered
  have bound := pending.fits run member
  have size := pending.size
  exact ⟨by omega, pending.sorted.ordered run member, by omega⟩

/-- The sequence number of the first byte of `safe_tail`. -/
theorem Pending.nodeSeq_eq (pending : Pending state view) :
    state.window.lastSeq - (state.heap.node state.window.safeTail).validBlockCount =
      BitVec.ofNat 32 (view.origin + 4096 * (view.depth / 4096)) := by
  rw [pending.counts.partly _ pending.formed.safe, pending.lastSeq_split, Serial.ofNat_sub (by omega),
    Nat.add_sub_cancel]

/-- The distance of a sequence number from the start of `safe_tail` is the distance of the positions. -/
theorem Pending.offset_eq (pending : Pending state view)
    (near : firstPosition state view seq < view.origin + 4096 * (view.depth / 4096) + 2 ^ 32) :
    (seq - (state.window.lastSeq - (state.heap.node state.window.safeTail).validBlockCount)).toNat =
      firstPosition state view seq - (view.origin + 4096 * (view.depth / 4096)) := by
  have ordered := pending.ordered
  have lower : view.position ≤ firstPosition state view seq := Nat.le_add_right _ _
  have depth : view.depth = view.position - view.origin := rfl
  have seqIs : seq = BitVec.ofNat 32 (firstPosition state view seq) := pending.seq_eq.symm
  rw [pending.nodeSeq_eq]
  conv_lhs => rw [seqIs]
  exact Serial.toNat_sub (by omega) (by omega)

end Geometry

/-- The block joins the listed runs without an overlap. -/
structure Listed (view : View) (first last : Nat) (runs : List (Nat × Nat)) : Prop where
  placed : (place first last view.runs).admits runs
  nonempty : runs ≠ []
  apart : Disjoint (Set.Ico first last) (covered view.runs)
  union : covered runs = covered view.runs ∪ Set.Ico first last

section Listing

variable {state : WQState} {view : View} {seq length : U32} {runs : List (Nat × Nat)}

/-- The runs after an admission make up the next view. -/
theorem Tracks.listed (tracks : Tracks state view) {first last : Nat}
    (lower : view.position ≤ first) (upper : last + 1 < view.origin + 4096 * state.window.windowSize.toNat)
    (lists : Lists (altusUBCheck state.window.ubList seq length).2 runs) (admitted : Admitted first last view.runs runs)
    (few : runs.length ≤ 8) : Pending (listBlock state seq length) { view with runs := runs } where
  formed := { tracks.formed with }
  counts := tracks.counts
  ordered := tracks.ordered
  safeLen := tracks.safeLen
  lastSeq := tracks.lastSeq
  size := tracks.size
  shallow := tracks.shallow
  lists := lists
  sorted := admitted.sorted
  few := few
  fits := by
    intro run member
    simp only [listBlock]
    rcases admitted.ends run member with fresh | ⟨old, inside, same⟩
    · omega
    · rw [same]
      exact tracks.fits old inside
  reached := by
    intro run member
    rcases admitted.starts run member with fresh | ⟨old, inside, same⟩
    · rw [fresh]
      exact lower
    · rw [same]
      exact tracks.reached old inside

/-- `altusUBCheck` answers an accepted block with the admission of its positions. -/
theorem Tracks.check_admits (tracks : Tracks state view) (accepts : Accepts state.window seq length)
    (short : (seq - state.window.lastSeq).toNat + length.toNat < 2 ^ 32) :
    ∃ runs, (place (firstPosition state view seq) (firstPosition state view seq + length.toNat) view.runs).admits runs ∧
      Lists (altusUBCheck state.window.ubList seq length).2 runs ∧ runs.length ≤ 8 := by
  have inside := tracks.accepts_inside accepts short
  have size := tracks.size
  have ordered := tracks.ordered
  have lower : view.position ≤ firstPosition state view seq := Nat.le_add_right _ _
  have follows := altusUBCheck_follows tracks.lists tracks.few tracks.within (by omega)
    (Nat.le_add_right (firstPosition state view seq) length.toNat) (by omega)
  rw [Nat.add_sub_cancel_left, tracks.seq_eq, Serial.ofNat_toNat] at follows
  have lengths := place_length (firstPosition state view seq) (firstPosition state view seq + length.toNat) view.runs
  have listed := accepts.2.2
  cases answer : place (firstPosition state view seq) (firstPosition state view seq + length.toNat) view.runs with
  | overlap =>
      rw [answer, Follows] at follows
      rw [follows] at listed
      simp at listed
  | extended next =>
      rw [answer] at follows lengths
      exact ⟨next, rfl, follows.2, lengths.trans tracks.few⟩
  | added next =>
      rw [answer, Follows] at follows
      split at follows
      · exact ⟨next, rfl, follows.2, by simpa using ‹_›⟩
      · rw [follows] at listed
        simp at listed

/-- `altusUBCheck` of an accepted block lists exactly the received positions beyond `lastSeq`. -/
theorem Tracks.lists_block (tracks : Tracks state view) (accepts : Accepts state.window seq length)
    (short : (seq - state.window.lastSeq).toNat + length.toNat < 2 ^ 32) :
    ∃ runs, Pending (listBlock state seq length) { view with runs := runs } ∧
      Listed view (firstPosition state view seq) (firstPosition state view seq + length.toNat) runs := by
  have inside := tracks.accepts_inside accepts short
  obtain ⟨runs, placed, lists, few⟩ := tracks.check_admits accepts short
  have admitted := place_admits (Nat.le_add_right _ _) tracks.sorted placed
  exact ⟨runs, tracks.listed (Nat.le_add_right _ _) inside lists admitted few, placed, admitted.nonempty,
    admitted.apart, admitted.union⟩

/-- A block with a byte leaves no empty run. -/
theorem Listed.runs_nonempty {first last : Nat} (listed : Listed view first last runs)
    (represents : Represents state view) (positive : first < last) : ∀ run ∈ runs, run.1 < run.2 :=
  place_nonempty positive represents.canonical listed.placed

end Listing

section Delivery

variable {state : WQState} {view : View} {seq length : U32} {data : Memory}

/-- The counts of a chain stay in place when it grows. -/
theorem Counts.grow {heap : WQHeap} {cells nextCells : List Ptr} {last count : Nat}
    (counts : Counts heap cells last count) (grown : cells <+: nextCells) (inside : last < cells.length) :
    Counts heap nextCells last count := by
  obtain ⟨more, rfl⟩ := grown
  constructor
  · intro index pointer before here
    rw [List.getElem?_append_left (by omega)] at here
    exact counts.full index pointer before here
  · intro pointer here
    rw [List.getElem?_append_left inside] at here
    exact counts.partly pointer here

/-- A block in reach of `safe_tail` is copied into the chain. -/
theorem Pending.copy_ok (pending : Pending state view) (data : Memory) {first : Nat}
    (lower : view.position ≤ first) (reach : first ≤ view.origin + 4096 * (view.depth / 4096) + 4096)
    (small : length.toNat < 2 ^ 31) :
    ∃ copies next cells free,
      copyLoop length data (length.toNat + 2) state (some state.window.safeTail)
        (state.window.lastSeq - (state.heap.node state.window.safeTail).validBlockCount)
        (BitVec.ofNat 32 first) length = .ok (copies, next) ∧
      Copied state view.cells (view.depth / 4096) (first - view.origin) length.toNat data copies next
        cells free ∧
      (0 < length.toNat → cells.length = max view.cells.length ((first - view.origin) / 4096 + 1) +
        ((first - view.origin + length.toNat) / 4096 - (first - view.origin) / 4096)) := by
  have ordered := pending.ordered
  have depth : view.depth ≤ first - view.origin := by rw [View.depth]; omega
  obtain ⟨copies, next, cells, free, looped, copied, lengthIs⟩ := @copyLoop_spec length data view.origin _
    (length.toNat + 2) state _ _ _ (first - view.origin) length.toNat _ pending.formed pending.formed.safe
    (by omega) (by omega) le_rfl small (by split <;> omega)
  rw [Nat.sub_self, shift_zero] at copied
  refine ⟨copies, next, cells, free, ?_, copied, fun positive => lengthIs (Or.inr positive)⟩
  rw [pending.nodeSeq_eq]
  rwa [Nat.add_sub_of_le (by omega), Serial.ofNat_toNat] at looped

/-- The copy of a block keeps the view, up to new nodes. -/
theorem Pending.after_copy (pending : Pending state view) {start count : Nat} {copies : List Copy}
    {next : WQState} {cells free : List Ptr}
    (copied : Copied state view.cells (view.depth / 4096) start count data copies next cells free) :
    Pending next { view with cells := cells, free := free } := by
  obtain ⟨unsafeTail, unsafeLen, window⟩ := copied.window
  exact {
    formed := copied.formed
    counts := (pending.counts.congr copied.counts).grow copied.grown pending.safeInside
    ordered := pending.ordered
    safeLen := by rw [window]; exact pending.safeLen
    lastSeq := by rw [window]; exact pending.lastSeq
    size := by rw [window]; exact pending.size
    shallow := by rw [window]; exact pending.shallow
    lists := by rw [window]; exact pending.lists
    sorted := pending.sorted
    few := pending.few
    fits := by rw [window]; exact pending.fits
    reached := pending.reached }

/-- One `memcpy` into a node keeps the view. -/
theorem Pending.after_write (pending : Pending state view) (current : Ptr) (offset : Nat) (source : Memory)
    (count : Nat) : Pending (writeNode state current offset source count) view :=
  { pending with
    formed := writeNode_formed pending.formed current offset source count
    counts := pending.counts.congr fun pointer => state.heap.modify_keeps WQNode.validBlockCount current
      (fun node => { node with data := memcpy node.data offset source count }) (fun _ => rfl) pointer }

/-- A block beyond the reach of `safe_tail` is written into its node all the same, or the call ends. -/
theorem Pending.copy_stray (pending : Pending state view) (data : Memory) {first : Nat}
    (beyond : view.origin + 4096 * (view.depth / 4096) + 4096 < first)
    (near : first + length.toNat < view.origin + 2 ^ 31) (positive : 0 < length.toNat) :
    copyLoop length data (length.toNat + 2) state (some state.window.safeTail)
        (state.window.lastSeq - (state.heap.node state.window.safeTail).validBlockCount)
        (BitVec.ofNat 32 first) length =
      if nodeSize < (first - (view.origin + 4096 * (view.depth / 4096))) % 65536 + length.toNat then .error .outOfBounds
      else .ok ([⟨(first - (view.origin + 4096 * (view.depth / 4096))) % 65536, length.toNat⟩],
        writeNode state state.window.safeTail ((first - (view.origin + 4096 * (view.depth / 4096))) % 65536)
          data length.toNat) := by
  rw [pending.nodeSeq_eq]
  exact copyLoop_stray length.toNat (by omega) (by omega) positive

end Delivery

end Altus.WindowedQueue
