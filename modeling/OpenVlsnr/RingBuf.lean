import OpenVlsnr.GuardedRun
import OpenVlsnr.RingSlots
import OpenVlsnr.Types

/-!
# The single-producer single-consumer ring buffer (`dvbs2x_ringbuf.h`)

`head` and `tail` are free-running 32-bit words, `size` a power of two.  A call of a side is cut
into the steps that the other side can come between: the load of the other index (with the count
that follows from it), the copy of each element, the store of the own index.  `RingSystem` is the
buffer, what each side is in the middle of, and the history: the elements published and taken so
far, and what the peeks have returned.  The memory is one of bytes, and an element is `elem_size` of
them.

* `ringStep`, `ringRun` - one step of either side, and any sequence of them;
* `RingInv` - the invariant, over the numbers of elements published and taken;
* `ringbuf_fifo` - the buffer is a bounded FIFO under every interleaving.
-/

namespace OpenVlsnr

open GuardedRun RingSlots

/-! ### The buffer -/

/-- `struct dvbs2x_ringbuf`, without its statistics; `elem_size` is a parameter. -/
structure Ringbuf (elemSize : ℕ) where
  head : BitVec 32
  tail : BitVec 32
  size : BitVec 32
  mask : BitVec 32
  buffer : ℕ → Byte

/-- The bytes of an element. -/
abbrev RingElem (elemSize : ℕ) := Vector Byte elemSize

section
variable {elemSize : ℕ}

/-- `memcpy(elem, buffer + pos * elem_size, elem_size)`. -/
def Ringbuf.slot (rb : Ringbuf elemSize) (pos : ℕ) : RingElem elemSize :=
  Vector.ofFn fun b => rb.buffer (pos * elemSize + b)

/-- `memcpy(buffer + pos * elem_size, elem, elem_size)`. -/
def Ringbuf.store (rb : Ringbuf elemSize) (pos : ℕ) (elem : RingElem elemSize) :
    Ringbuf elemSize :=
  { rb with buffer := fun a =>
      if pos * elemSize ≤ a then elem.toList.getD (a - pos * elemSize) (rb.buffer a)
      else rb.buffer a }

/-- Elements do not overlap. -/
theorem Ringbuf.slot_store (rb : Ringbuf elemSize) (pos : ℕ) (elem : RingElem elemSize) :
    (rb.store pos elem).slot = Function.update rb.slot pos elem := by
  funext p
  refine Vector.ext fun b hb => ?_
  obtain hbelow | rfl | habove := Nat.lt_trichotomy p pos
  · have hle : (p + 1) * elemSize ≤ pos * elemSize := Nat.mul_le_mul_right _ hbelow
    rw [Function.update_of_ne hbelow.ne]
    simp only [slot, store, Vector.getElem_ofFn]
    rw [if_neg (by rw [Nat.succ_mul] at hle; omega)]
  · rw [Function.update_self]
    simp [slot, store]
  · have hle : (pos + 1) * elemSize ≤ p * elemSize := Nat.mul_le_mul_right _ habove
    rw [Nat.succ_mul] at hle
    rw [Function.update_of_ne habove.ne']
    simp only [slot, store, Vector.getElem_ofFn]
    rw [if_pos (by omega), List.getD_eq_getElem?_getD,
      List.getElem?_eq_none (by rw [Vector.length_toList]; omega), Option.getD_none]

/-- `dvbs2x_ringbuf_init`; `none` is its `-1`. -/
def ringbufInit (buffer : ℕ → Byte) (size : BitVec 32) : Option (Ringbuf elemSize) :=
  if size &&& (size - 1) ≠ 0 then none
  else some ⟨0, 0, size, size - 1, buffer⟩

/-- `dvbs2x_ringbuf_avail`. -/
def ringbufAvail (rb : Ringbuf elemSize) : BitVec 32 :=
  rb.head - rb.tail

/-- `dvbs2x_ringbuf_free`. -/
def ringbufFree (rb : Ringbuf elemSize) : BitVec 32 :=
  rb.size - (rb.head - rb.tail)

/-- The slot of an index. -/
def ringbufPos (rb : Ringbuf elemSize) (index : BitVec 32) : ℕ :=
  (index &&& rb.mask).toNat

/-- The slots that a batch of `n` at `index` goes through: up to the end of the array, then from
its start. -/
def ringbufBatch (rb : Ringbuf elemSize) (index n : BitVec 32) : List ℕ :=
  let pos := index &&& rb.mask
  let contig := rb.size - pos
  if n ≤ contig then (List.range n.toNat).map fun k => pos.toNat + k
  else ((List.range contig.toNat).map fun k => pos.toNat + k) ++ List.range (n - contig).toNat

/-! ### The two sides -/

/-- What the producer is in the middle of: copying `elems`, the copies in `todo` still to be
made. -/
inductive RingProducer (elemSize : ℕ) where
  | idle
  | copying (todo : List (ℕ × RingElem elemSize)) (elems : List (RingElem elemSize))

/-- What the consumer is in the middle of: copying `n` elements, the slots in `todo` still to be
read, or copying one that it peeks at. -/
inductive RingConsumer (elemSize : ℕ) where
  | idle
  | copying (todo : List ℕ) (n : BitVec 32) (out : List (RingElem elemSize))
  | peeking (slot : ℕ) (offset : BitVec 32)

/-- A peek at `offset`, made when `gets` elements had been taken, and the element it returned. -/
structure RingPeek (elemSize : ℕ) where
  gets : ℕ
  offset : ℕ
  elem : RingElem elemSize

structure RingSystem (elemSize : ℕ) where
  rb : Ringbuf elemSize
  producer : RingProducer elemSize
  consumer : RingConsumer elemSize
  written : List (RingElem elemSize)
  taken : List (RingElem elemSize)
  peeks : List (RingPeek elemSize)

/-- The steps.  A call starts with its load of the other side's index. -/
inductive RingAction (elemSize : ℕ) where
  | put (elem : RingElem elemSize)
  | putBatch (elems : List (RingElem elemSize)) (count : BitVec 32)
  | copyIn
  | publishHead
  | get
  | getBatch (count : BitVec 32)
  | peek (offset : BitVec 32)
  | copyOut
  | publishTail

/-- One step; `none` when the side is not at that point of its call, or is given fewer elements
than it is told. -/
def ringStep (s : RingSystem elemSize) : RingAction elemSize → Option (RingSystem elemSize)
  | .put elem =>
    match s.producer with
    | .idle =>
      if ringbufFree s.rb = 0 then some s
      else some { s with producer := .copying [(ringbufPos s.rb s.rb.head, elem)] [elem] }
    | _ => none
  | .putBatch elems count =>
    match s.producer with
    | .idle =>
      if elems.length < count.toNat then none
      else
        let free := ringbufFree s.rb
        let n := if count < free then count else free
        if n = 0 then some s
        else
          let accepted := elems.take n.toNat
          let todo := (ringbufBatch s.rb s.rb.head n).zip accepted
          some { s with producer := .copying todo accepted }
    | _ => none
  | .copyIn =>
    match s.producer with
    | .copying ((slot, elem) :: todo) elems =>
      some { s with
        rb := s.rb.store slot elem
        producer := .copying todo elems }
    | _ => none
  | .publishHead =>
    match s.producer with
    | .copying [] elems =>
      some { s with
        rb := { s.rb with head := s.rb.head + BitVec.ofNat 32 elems.length }
        producer := .idle
        written := s.written ++ elems }
    | _ => none
  | .get =>
    match s.consumer with
    | .idle =>
      if ringbufAvail s.rb = 0 then some s
      else some { s with consumer := .copying [ringbufPos s.rb s.rb.tail] 1 [] }
    | _ => none
  | .getBatch count =>
    match s.consumer with
    | .idle =>
      let avail := ringbufAvail s.rb
      let n := if count < avail then count else avail
      if n = 0 then some s
      else some { s with consumer := .copying (ringbufBatch s.rb s.rb.tail n) n [] }
    | _ => none
  | .peek offset =>
    match s.consumer with
    | .idle =>
      if ringbufAvail s.rb ≤ offset then some s
      else some { s with consumer := .peeking (ringbufPos s.rb (s.rb.tail + offset)) offset }
    | _ => none
  | .copyOut =>
    match s.consumer with
    | .copying (slot :: todo) n out =>
      some { s with
        consumer := .copying todo n (out ++ [s.rb.slot slot]) }
    | .peeking slot offset =>
      some { s with
        consumer := .idle
        peeks := s.peeks ++ [⟨s.taken.length, offset.toNat, s.rb.slot slot⟩] }
    | _ => none
  | .publishTail =>
    match s.consumer with
    | .copying [] n out =>
      some { s with
        rb := { s.rb with tail := s.rb.tail + n }
        consumer := .idle
        taken := s.taken ++ out }
    | _ => none

/-- Both sides idle, and nothing done yet. -/
def ringSystem (rb : Ringbuf elemSize) : RingSystem elemSize :=
  ⟨rb, .idle, .idle, [], [], []⟩

def ringRun (s : RingSystem elemSize) (actions : List (RingAction elemSize)) : Option (RingSystem elemSize) :=
  actions.foldlM ringStep s

/-! ### Indices -/

/-- The indices of a buffer of `n` slots after `w` elements have been published and `r` taken. -/
structure RingIndex (n w r : ℕ) (rb : Ringbuf elemSize) : Prop where
  pow : ∃ e < 32, n = 2 ^ e
  size_eq : rb.size.toNat = n
  mask_eq : rb.mask.toNat = n - 1
  head_eq : rb.head = BitVec.ofNat 32 w
  tail_eq : rb.tail = BitVec.ofNat 32 r
  taken_le : r ≤ w
  written_le : w ≤ r + n

namespace RingIndex

variable {n w r : ℕ} {rb : Ringbuf elemSize}

theorem pos (h : RingIndex n w r rb) : 0 < n := by
  obtain ⟨e, -, rfl⟩ := h.pow
  exact Nat.two_pow_pos e

theorem lt (h : RingIndex n w r rb) : n < 2 ^ 32 := by
  obtain ⟨e, he, rfl⟩ := h.pow
  exact Nat.pow_lt_pow_right Nat.one_lt_two he

theorem avail_toNat (h : RingIndex n w r rb) : (ringbufAvail rb).toNat = w - r := by
  have hlt := h.lt
  have hle := h.written_le
  rw [ringbufAvail, h.head_eq, h.tail_eq]
  exact ofNat_sub_toNat h.taken_le (by omega)

theorem free_toNat (h : RingIndex n w r rb) : (ringbufFree rb).toNat = n - (w - r) := by
  have havail : (rb.head - rb.tail).toNat = w - r := h.avail_toNat
  have hle := h.written_le
  rw [ringbufFree, BitVec.toNat_sub_of_le, h.size_eq, havail]
  rw [BitVec.le_def, h.size_eq, havail]
  omega

theorem pos_eq (h : RingIndex n w r rb) (i : ℕ) :
    ringbufPos rb (BitVec.ofNat 32 i) = i % n := by
  obtain ⟨e, he, rfl⟩ := h.pow
  exact and_mask_toNat he.le h.mask_eq

/-- A batch goes through consecutive slots of the ring, wherever it has to wrap. -/
theorem batch_eq (h : RingIndex n w r rb) (i : ℕ) {count : BitVec 32} (hcount : count.toNat ≤ n) :
    ringbufBatch rb (BitVec.ofNat 32 i) count = slotsFrom n i count.toNat := by
  have hpos : (BitVec.ofNat 32 i &&& rb.mask).toNat = i % n := h.pos_eq i
  have hlt : i % n < n := Nat.mod_lt _ h.pos
  have hcontig : (rb.size - (BitVec.ofNat 32 i &&& rb.mask)).toNat = n - i % n := by
    rw [BitVec.toNat_sub_of_le, h.size_eq, hpos]
    rw [BitVec.le_def, h.size_eq, hpos]
    exact hlt.le
  have hslot : ∀ j, j < n → (i + j) % n = if i % n + j < n then i % n + j else i % n + j - n := by
    intro j hj
    rw [Nat.add_mod, Nat.mod_eq_of_lt hj]
    split_ifs with hfit
    · exact Nat.mod_eq_of_lt hfit
    · rw [Nat.mod_eq_sub_mod (by omega), Nat.mod_eq_of_lt (by omega)]
  unfold ringbufBatch
  dsimp only
  split_ifs with hfit
  · -- no wrap
    rw [BitVec.le_def, hcontig] at hfit
    refine List.ext_getElem (by simp) fun j hj hj' => ?_
    rw [length_slotsFrom] at hj'
    rw [getElem_slotsFrom, hslot j (by omega), if_pos (by omega), List.getElem_map,
      List.getElem_range, hpos]
  · -- from the position on to the end of the array, then from its start
    rw [BitVec.le_def, hcontig, not_le] at hfit
    have hrest : (count - (rb.size - (BitVec.ofNat 32 i &&& rb.mask))).toNat
        = count.toNat - (n - i % n) := by
      rw [BitVec.toNat_sub_of_le, hcontig]
      rw [BitVec.le_def, hcontig]
      exact hfit.le
    rw [hcontig, hrest, hpos]
    refine List.ext_getElem (by simp; omega) fun j hj hj' => ?_
    rw [length_slotsFrom] at hj'
    rw [getElem_slotsFrom, hslot j (by omega)]
    obtain hfirst | hsecond := Nat.lt_or_ge j (n - i % n)
    · rw [List.getElem_append_left (by simpa using hfirst), List.getElem_map, List.getElem_range,
        if_pos (by omega)]
    · rw [List.getElem_append_right (by simpa using hsecond), List.getElem_range,
        if_neg (by omega), List.length_map, List.length_range]
      omega

/-- The producer publishes `m` elements. -/
theorem publish (h : RingIndex n w r rb) (m : ℕ) (hroom : w + m ≤ r + n) :
    RingIndex n (w + m) r ({ rb with head := rb.head + BitVec.ofNat 32 m } : Ringbuf elemSize) where
  pow := h.pow
  size_eq := h.size_eq
  mask_eq := h.mask_eq
  head_eq := by rw [h.head_eq, BitVec.ofNat_add]
  tail_eq := h.tail_eq
  taken_le := h.taken_le.trans (Nat.le_add_right w m)
  written_le := hroom

/-- The consumer gives `count` slots back. -/
theorem release (h : RingIndex n w r rb) (count : BitVec 32) (hle : r + count.toNat ≤ w) :
    RingIndex n w (r + count.toNat) ({ rb with tail := rb.tail + count } : Ringbuf elemSize) where
  pow := h.pow
  size_eq := h.size_eq
  mask_eq := h.mask_eq
  head_eq := h.head_eq
  tail_eq := by rw [h.tail_eq, BitVec.ofNat_add, BitVec.ofNat_toNat, BitVec.setWidth_eq]
  taken_le := hle
  written_le := by
    have := h.written_le
    omega

theorem store (h : RingIndex n w r rb) (pos : ℕ) (elem : RingElem elemSize) :
    RingIndex n w r (rb.store pos elem) :=
  ⟨h.pow, h.size_eq, h.mask_eq, h.head_eq, h.tail_eq, h.taken_le, h.written_le⟩

end RingIndex

/-! ### The invariant -/

/-- The producer has room for what it copies, and has copied the first `k` elements. -/
def ProducerInv (n w r : ℕ) (slot : ℕ → RingElem elemSize) : RingProducer elemSize → Prop
  | .idle => True
  | .copying todo elems => w + elems.length ≤ r + n ∧ ∃ k ≤ elems.length,
      todo = ((slotsFrom n w elems.length).zip elems).drop k ∧ Filled n w slot elems k

/-- What the consumer copies has been published, and its first `k` elements have been read. -/
def ConsumerInv (n r : ℕ) (written : List (RingElem elemSize)) : RingConsumer elemSize → Prop
  | .idle => True
  | .copying todo count out => r + count.toNat ≤ written.length ∧ ∃ k ≤ count.toNat,
      todo = (slotsFrom n r count.toNat).drop k ∧ out = (written.drop r).take k
  | .peeking slot offset => r + offset.toNat < written.length ∧ slot = (r + offset.toNat) % n

structure RingInv (n : ℕ) (s : RingSystem elemSize) : Prop where
  index : RingIndex n s.written.length s.taken.length s.rb
  taken_eq : s.taken = s.written.take s.taken.length
  holds : Holds n s.taken.length s.rb.slot s.written
  producer : ProducerInv n s.written.length s.taken.length s.rb.slot s.producer
  consumer : ConsumerInv n s.taken.length s.written s.consumer
  peeks : ∀ p ∈ s.peeks, s.written[p.gets + p.offset]? = some p.elem

/-- Elements published later do not matter to the consumer. -/
theorem ConsumerInv.append {n r : ℕ} {written : List (RingElem elemSize)} {consumer : RingConsumer elemSize}
    (h : ConsumerInv n r written consumer) (new : List (RingElem elemSize)) :
    ConsumerInv n r (written ++ new) consumer := by
  cases consumer with
  | idle => trivial
  | copying todo count out =>
    obtain ⟨hle, k, hk, htodo, hout⟩ := h
    refine ⟨hle.trans (by simp), k, hk, htodo, ?_⟩
    rw [hout, List.drop_append_of_le_length (by omega),
      List.take_append_of_le_length (by rw [List.length_drop]; omega)]
  | peeking slot offset =>
    obtain ⟨hlt, hslot⟩ := h
    exact ⟨hlt.trans_le (by simp), hslot⟩

/-- Slots given back do not matter to the producer. -/
theorem ProducerInv.release {n w r r' : ℕ} {slot : ℕ → RingElem elemSize} {producer : RingProducer elemSize}
    (h : ProducerInv n w r slot producer) (hle : r ≤ r') : ProducerInv n w r' slot producer := by
  cases producer with
  | idle => trivial
  | copying todo elems => exact ⟨h.1.trans (by omega), h.2⟩

/-! ### The producer's steps -/

/-- `(count < free) ? count : free`. -/
theorem toNat_ite_lt (a b : BitVec 32) : (if a < b then a else b).toNat = min a.toNat b.toNat := by
  split_ifs with hlt
  · rw [BitVec.lt_def] at hlt
    exact (min_eq_left hlt.le).symm
  · rw [BitVec.lt_def, not_lt] at hlt
    exact (min_eq_right hlt).symm

theorem toNat_pos_of_ne_zero {count : BitVec 32} (h : count ≠ 0) : 0 < count.toNat :=
  Nat.pos_of_ne_zero fun hzero => h (BitVec.eq_of_toNat_eq hzero)

namespace RingInv

variable {n : ℕ} {s s' : RingSystem elemSize}

/-- A producer that starts to copy into free slots. -/
theorem startCopy (h : RingInv n s) {elems : List (RingElem elemSize)} {todo : List (ℕ × RingElem elemSize)}
    (hroom : s.written.length + elems.length ≤ s.taken.length + n)
    (htodo : todo = (slotsFrom n s.written.length elems.length).zip elems) :
    RingInv n { s with producer := .copying todo elems } :=
  ⟨h.index, h.taken_eq, h.holds, ⟨hroom, 0, Nat.zero_le _, htodo, Filled.zero _ _ _ _⟩, h.consumer,
    h.peeks⟩

theorem put (h : RingInv n s) {elem : RingElem elemSize} (hstep : ringStep s (.put elem) = some s') :
    RingInv n s' := by
  unfold ringStep at hstep
  dsimp only at hstep
  split at hstep
  · split_ifs at hstep with hfull
    · exact Option.some.inj hstep ▸ h
    · obtain rfl := Option.some.inj hstep
      have hfree := toNat_pos_of_ne_zero hfull
      rw [h.index.free_toNat] at hfree
      refine h.startCopy ?_ ?_
      · have := h.index.taken_le
        rw [List.length_singleton]
        omega
      · rw [h.index.head_eq, h.index.pos_eq]
        rfl
  · cases hstep

theorem putBatch (h : RingInv n s) {elems : List (RingElem elemSize)} {count : BitVec 32}
    (hstep : ringStep s (.putBatch elems count) = some s') : RingInv n s' := by
  unfold ringStep at hstep
  dsimp only at hstep
  split at hstep
  · have hm := toNat_ite_lt count (ringbufFree s.rb)
    generalize (if count < ringbufFree s.rb then count else ringbufFree s.rb) = m at hstep hm
    rw [h.index.free_toNat] at hm
    split_ifs at hstep with hlen hnone
    · exact Option.some.inj hstep ▸ h
    · obtain rfl := Option.some.inj hstep
      have htake : (elems.take m.toNat).length = m.toNat := by
        rw [List.length_take]
        omega
      have hsome := toNat_pos_of_ne_zero hnone
      have hle := h.index.taken_le
      refine h.startCopy ?_ ?_
      · rw [htake]
        omega
      · rw [htake, h.index.head_eq, h.index.batch_eq _ (by omega)]
  · cases hstep

/-- One copy: the slot is free, and what is copied there is the next element. -/
theorem copyIn (h : RingInv n s) (hstep : ringStep s .copyIn = some s') : RingInv n s' := by
  unfold ringStep at hstep
  dsimp only at hstep
  split at hstep
  · rename_i slot elem todo elems hproducer
    obtain rfl := Option.some.inj hstep
    have hcopy := h.producer
    rw [hproducer] at hcopy
    obtain ⟨hroom, k, hk, htodo, hfilled⟩ := hcopy
    obtain ⟨hlt, hnext, hrest⟩ := cons_eq_drop htodo
    rw [List.length_zip, length_slotsFrom, min_self] at hlt
    rw [List.getElem_zip, getElem_slotsFrom] at hnext
    obtain ⟨rfl, rfl⟩ := Prod.mk.inj hnext
    have hle := h.index.taken_le
    exact
      { index := h.index.store _ _
        taken_eq := h.taken_eq
        holds := by
          rw [Ringbuf.slot_store]
          exact h.holds.write (Nat.le_add_right _ k) (by omega) _
        producer := by
          refine ⟨hroom, k + 1, hlt, hrest, ?_⟩
          rw [Ringbuf.slot_store]
          exact hfilled.write hlt (by omega)
        consumer := h.consumer
        peeks := h.peeks }
  · cases hstep

/-- All copies made: the elements become part of the stream. -/
theorem publishHead (h : RingInv n s) (hstep : ringStep s .publishHead = some s') :
    RingInv n s' := by
  unfold ringStep at hstep
  dsimp only at hstep
  split at hstep
  · rename_i elems hproducer
    obtain rfl := Option.some.inj hstep
    have hcopy := h.producer
    rw [hproducer] at hcopy
    obtain ⟨hroom, k, hk, htodo, hfilled⟩ := hcopy
    have hall : k = elems.length := by
      have := List.drop_eq_nil_iff.mp htodo.symm
      rw [List.length_zip, length_slotsFrom, min_self] at this
      omega
    subst hall
    exact
      { index := by
          rw [List.length_append]
          exact h.index.publish elems.length hroom
        taken_eq := by
          rw [List.take_append_of_le_length h.index.taken_le]
          exact h.taken_eq
        holds := h.holds.append hfilled
        producer := trivial
        consumer := h.consumer.append elems
        peeks := fun p hp => by
          obtain ⟨hlt, -⟩ := List.getElem?_eq_some_iff.mp (h.peeks p hp)
          rw [List.getElem?_append_left hlt]
          exact h.peeks p hp }
  · cases hstep

/-! ### The consumer's steps -/

/-- A consumer that goes to another point of its call. -/
theorem withConsumer (h : RingInv n s) {consumer : RingConsumer elemSize}
    (hconsumer : ConsumerInv n s.taken.length s.written consumer) :
    RingInv n { s with consumer := consumer } :=
  ⟨h.index, h.taken_eq, h.holds, h.producer, hconsumer, h.peeks⟩

theorem get (h : RingInv n s) (hstep : ringStep s .get = some s') : RingInv n s' := by
  unfold ringStep at hstep
  dsimp only at hstep
  split at hstep
  · split_ifs at hstep with hempty
    · exact Option.some.inj hstep ▸ h
    · obtain rfl := Option.some.inj hstep
      have havail := toNat_pos_of_ne_zero hempty
      rw [h.index.avail_toNat] at havail
      have hone : (1 : BitVec 32).toNat = 1 := rfl
      refine h.withConsumer ⟨?_, 0, Nat.zero_le _, ?_, rfl⟩
      · rw [hone]
        omega
      · rw [h.index.tail_eq, h.index.pos_eq]
        rfl
  · cases hstep

theorem getBatch (h : RingInv n s) {count : BitVec 32}
    (hstep : ringStep s (.getBatch count) = some s') : RingInv n s' := by
  unfold ringStep at hstep
  dsimp only at hstep
  split at hstep
  · have hm := toNat_ite_lt count (ringbufAvail s.rb)
    generalize (if count < ringbufAvail s.rb then count else ringbufAvail s.rb) = m at hstep hm
    rw [h.index.avail_toNat] at hm
    split_ifs at hstep with hnone
    · exact Option.some.inj hstep ▸ h
    · obtain rfl := Option.some.inj hstep
      have hsome := toNat_pos_of_ne_zero hnone
      have hle := h.index.written_le
      refine h.withConsumer ⟨?_, 0, Nat.zero_le _, ?_, rfl⟩
      · omega
      · rw [h.index.tail_eq, h.index.batch_eq _ (by omega), List.drop_zero]
  · cases hstep

theorem peek (h : RingInv n s) {offset : BitVec 32}
    (hstep : ringStep s (.peek offset) = some s') : RingInv n s' := by
  unfold ringStep at hstep
  dsimp only at hstep
  split at hstep
  · split_ifs at hstep with hbeyond
    · exact Option.some.inj hstep ▸ h
    · obtain rfl := Option.some.inj hstep
      rw [BitVec.le_def, h.index.avail_toNat, not_le] at hbeyond
      have hindex : s.rb.tail + offset = BitVec.ofNat 32 (s.taken.length + offset.toNat) := by
        rw [h.index.tail_eq, BitVec.ofNat_add, BitVec.ofNat_toNat, BitVec.setWidth_eq]
      refine h.withConsumer ⟨by omega, ?_⟩
      rw [hindex, h.index.pos_eq]
  · cases hstep

/-- One element read: it is the next one of the stream. -/
theorem copyOut (h : RingInv n s) (hstep : ringStep s .copyOut = some s') : RingInv n s' := by
  unfold ringStep at hstep
  dsimp only at hstep
  split at hstep
  · rename_i slot todo count out hconsumer
    obtain rfl := Option.some.inj hstep
    have hcopy := h.consumer
    rw [hconsumer] at hcopy
    obtain ⟨hroom, k, hk, htodo, hout⟩ := hcopy
    obtain ⟨hlt, hnext, hrest⟩ := cons_eq_drop htodo
    rw [length_slotsFrom] at hlt
    rw [getElem_slotsFrom] at hnext
    have hheld : s.taken.length + k < s.written.length := by omega
    have hread : s.rb.slot slot = s.written[s.taken.length + k] := by
      rw [hnext]
      exact h.holds _ (Nat.le_add_right _ k) (by omega)
    have hleft : k < (s.written.drop s.taken.length).length := by
      rw [List.length_drop]
      omega
    refine h.withConsumer ⟨hroom, k + 1, hlt, hrest, ?_⟩
    rw [hread, hout, List.take_succ_eq_append_getElem hleft, List.getElem_drop]
  · rename_i slot offset hconsumer
    obtain rfl := Option.some.inj hstep
    have hcopy := h.consumer
    rw [hconsumer] at hcopy
    obtain ⟨hlt, hslot⟩ := hcopy
    refine ⟨h.index, h.taken_eq, h.holds, h.producer, trivial, fun p hp => ?_⟩
    obtain hold | hnew := List.mem_append.mp hp
    · exact h.peeks p hold
    · obtain rfl := List.mem_singleton.mp hnew
      refine List.getElem?_eq_some_iff.mpr ⟨hlt, ?_⟩
      rw [hslot]
      exact (h.holds _ (Nat.le_add_right _ _) hlt).symm
  · cases hstep

/-- All elements read: their slots are given back. -/
theorem publishTail (h : RingInv n s) (hstep : ringStep s .publishTail = some s') :
    RingInv n s' := by
  unfold ringStep at hstep
  dsimp only at hstep
  split at hstep
  · rename_i count out hconsumer
    obtain rfl := Option.some.inj hstep
    have hcopy := h.consumer
    rw [hconsumer] at hcopy
    obtain ⟨hroom, k, hk, htodo, hout⟩ := hcopy
    have hall : k = count.toNat := by
      have := List.drop_eq_nil_iff.mp htodo.symm
      rw [length_slotsFrom] at this
      omega
    subst hall
    have hlen : (s.taken ++ out).length = s.taken.length + count.toNat := by
      rw [List.length_append, hout, List.length_take, List.length_drop]
      omega
    have hrelease := Nat.le_add_right s.taken.length count.toNat
    exact
      { index := by
          rw [hlen]
          exact h.index.release count hroom
        taken_eq := by
          rw [hlen, List.take_add, ← hout, ← h.taken_eq]
        holds := by
          rw [hlen]
          exact h.holds.release hrelease
        producer := by
          rw [hlen]
          exact h.producer.release hrelease
        consumer := trivial
        peeks := h.peeks }
  · cases hstep

/-! ### Every interleaving -/

/-- **The step lemma.** -/
theorem step (h : RingInv n s) (action : RingAction elemSize) (hstep : ringStep s action = some s') :
    RingInv n s' := by
  cases action with
  | put elem => exact h.put hstep
  | putBatch elems count => exact h.putBatch hstep
  | copyIn => exact h.copyIn hstep
  | publishHead => exact h.publishHead hstep
  | get => exact h.get hstep
  | getBatch count => exact h.getBatch hstep
  | peek offset => exact h.peek hstep
  | copyOut => exact h.copyOut hstep
  | publishTail => exact h.publishTail hstep

/-- **The run lemma.** -/
theorem run (h : RingInv n s) (actions : List (RingAction elemSize)) (hrun : ringRun s actions = some s') :
    RingInv n s' :=
  run_invariant (fun _ action _ h => h.step action) actions h hrun

end RingInv

/-! ### A bounded FIFO -/

/-- The slots from `tail` up to `head`: what the consumer has not released. -/
def ringbufHeld (rb : Ringbuf elemSize) : List ℕ :=
  (List.range (ringbufAvail rb).toNat).map fun i => ringbufPos rb (rb.tail + BitVec.ofNat 32 i)

/-- What it means that a system is a bounded FIFO. -/
structure RingFifo (size : BitVec 32) (s : RingSystem elemSize) : Prop where
  /-- what has been taken is what has been written, in order -/
  in_order : s.taken <+: s.written
  /-- nothing is lost: the rest is in the slots that are held -/
  nothing_lost : s.written = s.taken ++ (ringbufHeld s.rb).map s.rb.slot
  bounded : (s.rb.head - s.rb.tail).toNat ≤ size.toNat
  /-- a slot about to be written is one of the array, and not held -/
  no_overwrite : ∀ slot elem todo elems, s.producer = .copying ((slot, elem) :: todo) elems →
    slot < size.toNat ∧ slot ∉ ringbufHeld s.rb
  /-- what a peek at `offset` returned is the element `offset` places on -/
  peeked : ∀ p ∈ s.peeks, s.written[p.gets + p.offset]? = some p.elem ∧
    ∀ elem, s.taken[p.gets + p.offset]? = some elem → elem = p.elem

theorem RingIndex.held_eq {n w r : ℕ} {rb : Ringbuf elemSize} (h : RingIndex n w r rb) :
    ringbufHeld rb = slotsFrom n r (w - r) := by
  unfold ringbufHeld slotsFrom
  rw [h.avail_toNat]
  refine List.map_congr_left fun i _ => ?_
  rw [h.tail_eq, ← BitVec.ofNat_add, h.pos_eq]

theorem RingInv.in_order {n : ℕ} {s : RingSystem elemSize} (h : RingInv n s) : s.taken <+: s.written := by
  rw [h.taken_eq]
  exact List.take_prefix _ _

theorem RingInv.fifo {size : BitVec 32} {s : RingSystem elemSize} (h : RingInv size.toNat s) :
    RingFifo size s := by
  have hle := h.index.written_le
  refine ⟨h.in_order, ?_, ?_, fun slot elem todo elems hproducer => ?_, fun p hp => ?_⟩
  · rw [h.index.held_eq, h.holds.map_slotsFrom]
    conv_rhs => rw [h.taken_eq]
    rw [List.length_take, min_eq_left h.index.taken_le, List.take_append_drop]
  · have := h.index.avail_toNat
    rw [ringbufAvail] at this
    omega
  · have hcopy := h.producer
    rw [hproducer] at hcopy
    obtain ⟨hroom, k, -, htodo, -⟩ := hcopy
    obtain ⟨hlt, hnext, -⟩ := cons_eq_drop htodo
    rw [List.length_zip, length_slotsFrom, min_self] at hlt
    rw [List.getElem_zip, getElem_slotsFrom] at hnext
    obtain ⟨rfl, -⟩ := Prod.mk.inj hnext
    refine ⟨Nat.mod_lt _ h.index.pos, fun hheld => ?_⟩
    rw [h.index.held_eq] at hheld
    obtain ⟨j, hj, hsame⟩ := List.mem_map.mp hheld
    rw [List.mem_range] at hj
    exact mod_ne_of_lt (by omega) (by omega) hsame
  · refine ⟨h.peeks p hp, fun elem helem => ?_⟩
    obtain ⟨hlt, rfl⟩ := List.getElem?_eq_some_iff.mp helem
    obtain ⟨_, hwritten⟩ := List.getElem?_eq_some_iff.mp (h.peeks p hp)
    exact (h.in_order.getElem hlt).trans hwritten

/-- `dvbs2x_ringbuf_init` accepts the powers of two, and starts with an empty buffer. -/
theorem ringbufInit_inv (buffer : ℕ → Byte) {size : BitVec 32} {e : ℕ}
    (hsize : size.toNat = 2 ^ e) :
    ∃ rb : Ringbuf elemSize, ringbufInit buffer size = some rb ∧ RingInv size.toNat (ringSystem rb) := by
  have he : e < 32 := by
    have := size.isLt
    rw [hsize] at this
    exact (Nat.pow_lt_pow_iff_right Nat.one_lt_two).mp this
  have hmask : (size - 1).toNat = size.toNat - 1 := by
    refine BitVec.toNat_sub_of_le ?_
    rw [BitVec.le_def, hsize]
    exact Nat.one_le_two_pow
  have hand : size &&& (size - 1) = 0 := by
    refine BitVec.eq_of_toNat_eq ?_
    rw [BitVec.toNat_and, hmask, hsize, Nat.and_two_pow_sub_one_eq_mod, Nat.mod_self]
    rfl
  refine ⟨⟨0, 0, size, size - 1, buffer⟩, if_neg (not_not.mpr hand), ?_⟩
  refine ⟨⟨⟨e, he, hsize⟩, rfl, hmask, rfl, rfl, le_rfl, Nat.zero_le _⟩, rfl, Holds.empty _ _ _, trivial,
    trivial, fun p hp => ?_⟩
  exact absurd hp List.not_mem_nil

/-- **The ring buffer is a bounded FIFO under every interleaving** of the steps of its two sides,
for every size and element size, however often the indices wrap. -/
theorem ringbuf_fifo (elemSize : ℕ) (buffer : ℕ → Byte) {size : BitVec 32} {e : ℕ}
    (hsize : size.toNat = 2 ^ e) :
    ∃ rb : Ringbuf elemSize, ringbufInit buffer size = some rb ∧
      ∀ (actions : List (RingAction elemSize)) (s : RingSystem elemSize),
        ringRun (ringSystem rb) actions = some s → RingFifo size s := by
  obtain ⟨rb, hinit, hinv⟩ := ringbufInit_inv buffer hsize
  exact ⟨rb, hinit, fun actions s hrun => (hinv.run actions hrun).fifo⟩

end

/-- Two elements in, while the first of them is taken out again. -/
def ringOverlap : List (RingAction 2) :=
  [.put #v[5, 6], .copyIn, .publishHead, .put #v[7, 8], .get, .copyIn, .copyOut, .publishHead,
    .publishTail]

/-- A buffer of eight slots of two bytes. -/
theorem ringbuf_fifo_overlap :
    ∃ rb : Ringbuf 2, ringbufInit (fun _ => 0) 8 = some rb ∧
      ∃ s, ringRun (ringSystem rb) ringOverlap = some s ∧ RingFifo 8 s ∧
        s.written = [#v[5, 6], #v[7, 8]] ∧ s.taken = [#v[5, 6]] := by
  obtain ⟨rb, hinit, hfifo⟩ := ringbuf_fifo 2 (fun _ => 0) (show (8 : BitVec 32).toNat = 2 ^ 3 from rfl)
  obtain ⟨s, hrun, hhistory⟩ : ∃ s, ringRun (ringSystem rb) ringOverlap = some s ∧
      s.written = [#v[5, 6], #v[7, 8]] ∧ s.taken = [#v[5, 6]] := by
    obtain rfl := Option.some.inj hinit
    exact ⟨_, rfl, rfl, rfl⟩
  exact ⟨rb, hinit, s, hrun, hfifo _ s hrun, hhistory⟩

end OpenVlsnr
