import Altus.Construction.Machine

namespace Altus

/-- The eight places for blocks that arrived before their turn, `ALTUS_UB_List`. -/
structure UBList where
  headSeq : Nat → U32
  tailSeq : Nat → U32
  count : U32

namespace UBList

/-- The number of places, `ALTUS_MAX_UNSEQ_BLOCK_COUNT`. -/
abbrev maxUnseqBlockCount : Nat := 8

abbrev ubenumFull : Int := 0
abbrev ubenumMaliciousInput : Int := 1
abbrev ubenumOverlap : Int := 2
abbrev ubenumUBExtended : Int := 3
abbrev ubenumNewUBAdded : Int := 4

/-- The macro `pushBack` moves each entry from `place` on one place up. -/
def pushBack (seqs : Nat → U32) (place : Nat) : Nat → U32 :=
  fun index => if place < index ∧ index < maxUnseqBlockCount then seqs (index - 1) else seqs index

/-- The loop of the bridging case moves each entry after `place` one place down. -/
def pullUp (seqs : Nat → U32) (place : Nat) : Nat → U32 :=
  fun index => if place < index ∧ index + 1 < maxUnseqBlockCount then seqs (index + 1) else seqs index

/-- The loop body of `altusUBCheck` from entry `i` on, with the number of entries still to visit. -/
def altusUBCheckFrom (ubList : UBList) (seq length : U32) : (visits i : Nat) → Int × UBList
  | 0, _ =>
      if ubList.count = 0 then
        (ubenumNewUBAdded,
          { headSeq := Function.update ubList.headSeq 0 seq
            tailSeq := Function.update ubList.tailSeq 0 (seq + length)
            count := 1 })
      else (ubenumMaliciousInput, ubList)
  | visits + 1, i =>
      let currentHS := ubList.headSeq i
      let currentTS := ubList.tailSeq i
      if 0 < (currentHS - seq).toInt then
        if 0 < (currentHS - (seq + length)).toInt then
          if 0 < (8#32 - ubList.count).toInt then
            (ubenumNewUBAdded,
              { headSeq := Function.update (pushBack ubList.headSeq i) i seq
                tailSeq := Function.update (pushBack ubList.tailSeq i) i (seq + length)
                count := ubList.count + 1 })
          else (ubenumFull, ubList)
        else if seq + length = currentHS then
          (ubenumUBExtended, { ubList with headSeq := Function.update ubList.headSeq i seq })
        else (ubenumMaliciousInput, ubList)
      else if 0 < (currentTS - seq).toInt then (ubenumMaliciousInput, ubList)
      else if seq = currentTS then
        if BitVec.ofNat 32 i = ubList.count - 1 then
          (ubenumUBExtended,
            { ubList with tailSeq := Function.update ubList.tailSeq i (seq + length) })
        else
          let nextHeadSeq := ubList.headSeq (i + 1)
          if 0 < (nextHeadSeq - (seq + length)).toInt then
            (ubenumUBExtended,
              { ubList with tailSeq := Function.update ubList.tailSeq i (seq + length) })
          else if seq + length = nextHeadSeq then
            let joined := Function.update ubList.tailSeq i (ubList.tailSeq (i + 1))
            (ubenumUBExtended,
              { headSeq := pullUp ubList.headSeq i
                tailSeq := pullUp joined i
                count := ubList.count - 1 })
          else (ubenumMaliciousInput, ubList)
      else if 0 < (seq - currentTS).toInt ∧ BitVec.ofNat 32 i = ubList.count - 1 then
        if ubList.count < 8#32 then
          (ubenumNewUBAdded,
            { headSeq := Function.update ubList.headSeq ubList.count.toNat seq
              tailSeq := Function.update ubList.tailSeq ubList.count.toNat (seq + length)
              count := ubList.count + 1 })
        else (ubenumFull, ubList)
      else altusUBCheckFrom ubList seq length visits (i + 1)

/-- `altusUBCheck` answers how the block joins the list, and the list after the call. -/
def altusUBCheck (ubList : UBList) (seq length : U32) : Int × UBList :=
  altusUBCheckFrom ubList seq length ubList.count.toNat 0

/-- `altusUBPop` drops the first entry. -/
def altusUBPop (ubList : UBList) : UBList where
  headSeq := fun index => if index < 7 then ubList.headSeq (index + 1) else ubList.headSeq index
  tailSeq := fun index => if index < 7 then ubList.tailSeq (index + 1) else ubList.tailSeq index
  count := ubList.count - 1

end UBList

end Altus
