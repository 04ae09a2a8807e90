import OpenVlsnr.GuardedRun
import OpenVlsnr.RingSlots
import OpenVlsnr.Types

/-!
# The receive queue between the Pluto thread and the decoder (`pluto_rx_queue.c`)

`receive_loop` fills blocks in a ring of `num_blocks` and publishes them by `write_pos`; the
decoder alternates `pluto_rx_queue_acquire` and `pluto_rx_queue_release`.  Each atomic load or
store is a step of its own, and so is each piece of work of `pluto_rx_read` on a block.  Besides
the queue the state holds where both threads are, and the history: the blocks published and
acquired so far, and how many have been released.

* `rxStep`, `rxRun` - one step of either thread, and any sequence of them;
* `RxInv` - the invariant;
* `rxQueue_delivery` - blocks arrive in order, and none in use is overwritten;
* `rxQueue_end_of_stream_iff` - when the end of the stream is reported too early.
-/

namespace OpenVlsnr

open GuardedRun RingSlots

section
variable (α : Type*)

/-- `struct rx_block`: the samples in its part of the storage, and how many of them count. -/
structure RxBlock where
  samples : List α
  len : ℕ
  deriving DecidableEq

/-- Where `receive_loop` is. -/
inductive RxThread where
  /-- at the loop condition -/
  | top
  /-- about to compare `next_pos` with `read_pos` -/
  | position
  /-- in `pluto_rx_read` -/
  | reading (nextPos : ℕ)
  /-- with data in the block, in `capture_block` -/
  | capturing (nextPos : ℕ)
  /-- the block published, about to update the statistics -/
  | counting (writePos nextPos : ℕ)
  /-- out of the loop -/
  | leaving
  | finished
  deriving DecidableEq

/-- Where the decoder is. -/
inductive RxConsumer where
  /-- at the start of the loop of `pluto_rx_queue_acquire` -/
  | idle
  /-- with `read_pos` loaded -/
  | loaded (readPos : ℕ)
  /-- the queue found empty, about to load `done` -/
  | empty
  /-- `done` found set, about to load `error` -/
  | ending
  /-- between acquire and release -/
  | holding (readPos : ℕ)
  deriving DecidableEq

/-- `struct pluto_rx_queue`, the two threads and the history. -/
structure RxQueue where
  numBlocks : ℕ
  blocks : ℕ → RxBlock α
  readPos : ℕ
  writePos : ℕ
  stop : Bool
  done : Bool
  error : Bool
  receivedSamples : ℕ
  highWater : ℕ
  backpressure : ℕ
  queueFull : Bool
  thread : RxThread
  consumer : RxConsumer
  lastReturn : Option ℤ
  published : List (RxBlock α)
  acquired : List (RxBlock α)
  released : ℕ

/-- The steps. -/
inductive RxAction where
  -- `receive_loop`
  | checkStop
  | deadline
  | loadReadPos
  /-- `pluto_rx_read` writes to the block -/
  | fill (block : RxBlock α)
  | readError
  | readTimeout
  | readData
  | captureError
  | publish
  | count
  | setDone
  -- `pluto_rx_queue_acquire` and `pluto_rx_queue_release`
  | acquire
  | loadWritePos
  | loadDone
  | loadError
  | release
  -- `pluto_rx_queue_stop`, its first statement
  | requestStop

end

section
variable {α : Type*}

/-- `pluto_rx_queue_start`, given the memory; `none` is its `-1`. -/
def rxQueueStart (numBlocks : ℕ) (storage : ℕ → List α) : Option (RxQueue α) :=
  if numBlocks < 2 then none
  else some
    { numBlocks := numBlocks
      blocks := fun i => ⟨storage i, 0⟩
      readPos := 0
      writePos := 0
      stop := false
      done := false
      error := false
      receivedSamples := 0
      highWater := 0
      backpressure := 0
      queueFull := false
      thread := .top
      consumer := .idle
      lastReturn := none
      published := []
      acquired := []
      released := 0 }

/-- A step of `receive_loop`; `none` when it is not at that point. -/
def receiveStep (q : RxQueue α) : RxAction α → Option (RxQueue α)
  | .checkStop =>
    match q.thread with
    | .top => some { q with thread := if q.stop then .leaving else .position }
    | _ => none
  | .deadline =>
    match q.thread with
    | .position => some { q with thread := .leaving }
    | _ => none
  | .loadReadPos =>
    match q.thread with
    | .position =>
      let nextPos := (q.writePos + 1) % q.numBlocks
      if nextPos = q.readPos then
        some { q with
          backpressure := if q.queueFull then q.backpressure else (q.backpressure + 1) % 2 ^ 32
          queueFull := true
          thread := .top }
      else some { q with queueFull := false, thread := .reading nextPos }
    | _ => none
  | .fill block =>
    match q.thread with
    | .reading _ => some { q with blocks := Function.update q.blocks q.writePos block }
    | _ => none
  | .readError =>
    match q.thread with
    | .reading _ => some { q with error := q.error || !q.stop, thread := .leaving }
    | _ => none
  | .readTimeout =>
    match q.thread with
    | .reading _ => some { q with thread := .top }
    | _ => none
  | .readData =>
    match q.thread with
    | .reading nextPos => some { q with thread := .capturing nextPos }
    | _ => none
  | .captureError =>
    match q.thread with
    | .capturing _ => some { q with error := true, thread := .leaving }
    | _ => none
  | .publish =>
    match q.thread with
    | .capturing nextPos =>
      some { q with
        writePos := nextPos
        thread := .counting q.writePos nextPos
        published := q.published ++ [q.blocks q.writePos] }
    | _ => none
  | .count =>
    match q.thread with
    | .counting writePos nextPos =>
      let depth := (nextPos + q.numBlocks - q.readPos) % 2 ^ 32 % q.numBlocks
      some { q with
        receivedSamples := (q.receivedSamples + (q.blocks writePos).len) % 2 ^ 64
        highWater := max q.highWater depth
        thread := .top }
    | _ => none
  | .setDone =>
    match q.thread with
    | .leaving => some { q with done := true, thread := .finished }
    | _ => none
  | _ => none

/-- A step of the decoder's calls. -/
def acquireStep (q : RxQueue α) : RxAction α → Option (RxQueue α)
  | .acquire =>
    match q.consumer with
    | .idle => some { q with consumer := .loaded q.readPos }
    | _ => none
  | .loadWritePos =>
    match q.consumer with
    | .loaded readPos =>
      if readPos ≠ q.writePos then
        some { q with
          consumer := .holding readPos
          lastReturn := some 0
          acquired := q.acquired ++ [q.blocks readPos] }
      else some { q with consumer := .empty }
    | _ => none
  | .loadDone =>
    match q.consumer with
    | .empty => some { q with consumer := if q.done then .ending else .idle }
    | _ => none
  | .loadError =>
    match q.consumer with
    | .ending =>
      some { q with consumer := .idle, lastReturn := some (if q.error then -1 else 1) }
    | _ => none
  | .release =>
    match q.consumer with
    | .holding _ =>
      some { q with
        readPos := (q.readPos + 1) % q.numBlocks
        consumer := .idle
        released := q.released + 1 }
    | _ => none
  | _ => none

/-- One step of either thread, or of the one that stops them. -/
def rxStep (q : RxQueue α) : RxAction α → Option (RxQueue α)
  | .requestStop => some { q with stop := true }
  | .acquire => acquireStep q .acquire
  | .loadWritePos => acquireStep q .loadWritePos
  | .loadDone => acquireStep q .loadDone
  | .loadError => acquireStep q .loadError
  | .release => acquireStep q .release
  | action => receiveStep q action

def rxRun (q : RxQueue α) (actions : List (RxAction α)) : Option (RxQueue α) :=
  actions.foldlM rxStep q

/-! ### What a step has done -/

section
variable {q q' : RxQueue α}

theorem receiveStep_loadReadPos (hstep : receiveStep q .loadReadPos = some q') :
    q.thread = .position ∧
      ((q.writePos + 1) % q.numBlocks = q.readPos ∧
          q' = { q with
            backpressure := if q.queueFull then q.backpressure else (q.backpressure + 1) % 2 ^ 32
            queueFull := true
            thread := .top } ∨
        (q.writePos + 1) % q.numBlocks ≠ q.readPos ∧
          q' = { q with
            queueFull := false
            thread := .reading ((q.writePos + 1) % q.numBlocks) }) := by
  unfold receiveStep at hstep
  dsimp only at hstep
  split at hstep
  · rename_i hthread
    by_cases hfull : (q.writePos + 1) % q.numBlocks = q.readPos
    · rw [if_pos hfull] at hstep
      exact ⟨hthread, Or.inl ⟨hfull, (Option.some.inj hstep).symm⟩⟩
    · rw [if_neg hfull] at hstep
      exact ⟨hthread, Or.inr ⟨hfull, (Option.some.inj hstep).symm⟩⟩
  · cases hstep

theorem receiveStep_publish (hstep : receiveStep q .publish = some q') :
    ∃ nextPos, q.thread = .capturing nextPos ∧
      q' = { q with
        writePos := nextPos
        thread := .counting q.writePos nextPos
        published := q.published ++ [q.blocks q.writePos] } := by
  unfold receiveStep at hstep
  dsimp only at hstep
  split at hstep
  · rename_i nextPos hthread
    exact ⟨nextPos, hthread, (Option.some.inj hstep).symm⟩
  · cases hstep

theorem acquireStep_acquire (hstep : acquireStep q .acquire = some q') :
    q.consumer = .idle ∧ q' = { q with consumer := .loaded q.readPos } := by
  unfold acquireStep at hstep
  dsimp only at hstep
  split at hstep
  · rename_i hconsumer
    exact ⟨hconsumer, (Option.some.inj hstep).symm⟩
  · cases hstep

theorem acquireStep_loadWritePos (hstep : acquireStep q .loadWritePos = some q') :
    ∃ readPos, q.consumer = .loaded readPos ∧
      (readPos ≠ q.writePos ∧
          q' = { q with
            consumer := .holding readPos
            lastReturn := some 0
            acquired := q.acquired ++ [q.blocks readPos] } ∨
        readPos = q.writePos ∧ q' = { q with consumer := .empty }) := by
  unfold acquireStep at hstep
  dsimp only at hstep
  split at hstep
  · rename_i readPos hconsumer
    by_cases hempty : readPos = q.writePos
    · rw [if_neg (not_not.mpr hempty)] at hstep
      exact ⟨readPos, hconsumer, Or.inr ⟨hempty, (Option.some.inj hstep).symm⟩⟩
    · rw [if_pos hempty] at hstep
      exact ⟨readPos, hconsumer, Or.inl ⟨hempty, (Option.some.inj hstep).symm⟩⟩
  · cases hstep

theorem acquireStep_loadDone (hstep : acquireStep q .loadDone = some q') :
    q.consumer = .empty ∧ q' = { q with consumer := if q.done then .ending else .idle } := by
  unfold acquireStep at hstep
  dsimp only at hstep
  split at hstep
  · rename_i hconsumer
    exact ⟨hconsumer, (Option.some.inj hstep).symm⟩
  · cases hstep

theorem acquireStep_loadError (hstep : acquireStep q .loadError = some q') :
    q.consumer = .ending ∧
      q' = { q with
        consumer := .idle
        lastReturn := some (if q.error then -1 else 1) } := by
  unfold acquireStep at hstep
  dsimp only at hstep
  split at hstep
  · rename_i hconsumer
    exact ⟨hconsumer, (Option.some.inj hstep).symm⟩
  · cases hstep

theorem acquireStep_release (hstep : acquireStep q .release = some q') :
    ∃ readPos, q.consumer = .holding readPos ∧
      q' = { q with
        readPos := (q.readPos + 1) % q.numBlocks
        consumer := .idle
        released := q.released + 1 } := by
  unfold acquireStep at hstep
  dsimp only at hstep
  split at hstep
  · rename_i readPos hconsumer
    exact ⟨readPos, hconsumer, (Option.some.inj hstep).symm⟩
  · cases hstep

end

/-! ### The invariant -/

/-- A thread that has found room still has it: the decoder only makes more. -/
def ThreadInv (n w r : ℕ) : RxThread → Prop
  | .reading nextPos => nextPos = (w + 1) % n ∧ w + 1 < r + n
  | .capturing nextPos => nextPos = (w + 1) % n ∧ w + 1 < r + n
  | _ => True

/-- A decoder that holds a block has acquired one more than it has released. -/
def DecoderInv (n w r a : ℕ) : RxConsumer → Prop
  | .loaded readPos => readPos = r % n ∧ a = r
  | .holding readPos => readPos = r % n ∧ r < w ∧ a = r + 1
  | _ => a = r

structure RxInv (n : ℕ) (q : RxQueue α) : Prop where
  two_le : 2 ≤ n
  numBlocks_eq : q.numBlocks = n
  writePos_eq : q.writePos = q.published.length % n
  readPos_eq : q.readPos = q.released % n
  released_le : q.released ≤ q.published.length
  room : q.published.length < q.released + n
  acquired_eq : q.acquired = q.published.take q.acquired.length
  holds : Holds n q.released q.blocks q.published
  thread : ThreadInv n q.published.length q.released q.thread
  decoder : DecoderInv n q.published.length q.released q.acquired.length q.consumer

/-- Equal positions mean an empty queue. -/
theorem eq_of_mod_eq {n w r : ℕ} (hle : r ≤ w) (hroom : w < r + n) (h : r % n = w % n) : r = w := by
  by_contra hne
  exact mod_ne_of_lt (lt_of_le_of_ne hle hne) hroom h

theorem DecoderInv.acquired_le {n w r a : ℕ} {consumer : RxConsumer}
    (h : DecoderInv n w r a consumer) (hle : r ≤ w) : a ≤ w := by
  cases consumer with
  | loaded readPos => exact h.2.trans_le hle
  | holding readPos =>
    obtain ⟨-, hlt, rfl⟩ := h
    exact hlt
  | idle => exact h.trans_le hle
  | empty => exact h.trans_le hle
  | ending => exact h.trans_le hle

/-- Blocks published later do not matter to the decoder. -/
theorem DecoderInv.mono {n w w' r a : ℕ} {consumer : RxConsumer}
    (h : DecoderInv n w r a consumer) (hle : w ≤ w') : DecoderInv n w' r a consumer := by
  cases consumer with
  | holding readPos => exact ⟨h.1, h.2.1.trans_le hle, h.2.2⟩
  | loaded readPos => exact h
  | idle => exact h
  | empty => exact h
  | ending => exact h

/-- A block given back does not matter to the thread. -/
theorem ThreadInv.succ {n w r : ℕ} {thread : RxThread} (h : ThreadInv n w r thread) :
    ThreadInv n w (r + 1) thread := by
  cases thread with
  | reading nextPos => exact ⟨h.1, h.2.trans (by omega)⟩
  | capturing nextPos => exact ⟨h.1, h.2.trans (by omega)⟩
  | _ => trivial

namespace RxInv

variable {n : ℕ} {q q' : RxQueue α}

/-! ### The thread's steps -/

/-- A stale `read_pos` is good enough: what was free then is free now. -/
theorem loadReadPos (h : RxInv n q) (hstep : receiveStep q .loadReadPos = some q') :
    RxInv n q' := by
  obtain ⟨-, ⟨-, rfl⟩ | ⟨hfull, rfl⟩⟩ := receiveStep_loadReadPos hstep
  · exact { h with thread := trivial }
  · have hnext : (q.writePos + 1) % q.numBlocks = (q.published.length + 1) % n := by
      rw [h.writePos_eq, h.numBlocks_eq, Nat.mod_add_mod]
    refine { h with thread := ⟨hnext, ?_⟩ }
    have hroom := h.room
    rw [hnext, h.readPos_eq] at hfull
    have hne : q.published.length + 1 ≠ q.released + n := by
      intro hturn
      rw [hturn, Nat.add_mod_right] at hfull
      exact hfull rfl
    show q.published.length + 1 < q.released + n
    omega

/-- Filling goes to a slot that is not in use. -/
theorem fill (h : RxInv n q) {block : RxBlock α} (hstep : receiveStep q (.fill block) = some q') :
    RxInv n q' := by
  unfold receiveStep at hstep
  dsimp only at hstep
  split at hstep
  · obtain rfl := Option.some.inj hstep
    refine { h with holds := ?_ }
    show Holds n q.released (Function.update q.blocks q.writePos block) q.published
    rw [h.writePos_eq]
    exact h.holds.write le_rfl h.room block
  · cases hstep

/-- A published block is in its slot. -/
theorem publish (h : RxInv n q) (hstep : receiveStep q .publish = some q') : RxInv n q' := by
  obtain ⟨nextPos, hthread, rfl⟩ := receiveStep_publish hstep
  have hfree := h.thread
  rw [hthread] at hfree
  obtain ⟨hnext, hroom⟩ := hfree
  have hlen : (q.published ++ [q.blocks q.writePos]).length = q.published.length + 1 := by
    rw [List.length_append, List.length_singleton]
  exact
    { two_le := h.two_le
      numBlocks_eq := h.numBlocks_eq
      writePos_eq := by rw [hlen, hnext]
      readPos_eq := h.readPos_eq
      released_le := by
        rw [hlen]
        exact h.released_le.trans (Nat.le_succ _)
      room := by rwa [hlen]
      acquired_eq := by
        rw [List.take_append_of_le_length (h.decoder.acquired_le h.released_le)]
        exact h.acquired_eq
      holds := by
        refine h.holds.append fun j hj hlt => ?_
        obtain rfl := Nat.lt_one_iff.mp hj
        rw [Nat.add_zero, ← h.writePos_eq, List.getElem_singleton]
      thread := trivial
      decoder := by
        rw [hlen]
        exact h.decoder.mono (Nat.le_succ _) }

/-- The other steps of the thread leave blocks and positions alone. -/
theorem receive (h : RxInv n q) (action : RxAction α)
    (hstep : receiveStep q action = some q') : RxInv n q' := by
  cases action with
  | loadReadPos => exact h.loadReadPos hstep
  | fill block => exact h.fill hstep
  | publish => exact h.publish hstep
  | checkStop | deadline | readError | readTimeout | captureError | count | setDone =>
    unfold receiveStep at hstep
    dsimp only at hstep
    split at hstep
    · obtain rfl := Option.some.inj hstep
      refine { h with thread := ?_ }
      first
        | trivial
        | (show ThreadInv _ _ _ (if q.stop then .leaving else .position)
           split_ifs <;> trivial)
    · cases hstep
  | readData =>
    unfold receiveStep at hstep
    dsimp only at hstep
    split at hstep
    · rename_i nextPos hthread
      obtain rfl := Option.some.inj hstep
      have hfree := h.thread
      rw [hthread] at hfree
      exact { h with thread := hfree }
    · cases hstep
  | acquire | loadWritePos | loadDone | loadError | release | requestStop => cases hstep

/-! ### The decoder's steps -/

/-- The block that is acquired is the first one not released. -/
theorem loadWritePos (h : RxInv n q) (hstep : acquireStep q .loadWritePos = some q') :
    RxInv n q' := by
  obtain ⟨readPos, hconsumer, hfound⟩ := acquireStep_loadWritePos hstep
  have hdecoder := h.decoder
  rw [hconsumer] at hdecoder
  obtain ⟨rfl, hcount⟩ := hdecoder
  obtain ⟨hsome, rfl⟩ | ⟨-, rfl⟩ := hfound
  · have hlt : q.released < q.published.length := by
      refine lt_of_le_of_ne h.released_le fun hall => hsome ?_
      rw [h.writePos_eq, hall]
    have hblock : q.blocks (q.released % n) = q.published[q.released] :=
      h.holds q.released le_rfl hlt
    have hlen : (q.acquired ++ [q.blocks (q.released % n)]).length = q.released + 1 := by
      rw [List.length_append, List.length_singleton, hcount]
    have hacquired := h.acquired_eq
    rw [hcount] at hacquired
    have hprefix : q.acquired ++ [q.blocks (q.released % n)]
        = q.published.take (q.released + 1) := by
      rw [List.take_succ_eq_append_getElem hlt, hblock, ← hacquired]
    exact { h with acquired_eq := by rwa [hlen], decoder := ⟨rfl, hlt, hlen⟩ }
  · exact { h with decoder := hcount }

theorem release (h : RxInv n q) (hstep : acquireStep q .release = some q') : RxInv n q' := by
  obtain ⟨readPos, hconsumer, rfl⟩ := acquireStep_release hstep
  have hdecoder := h.decoder
  rw [hconsumer] at hdecoder
  obtain ⟨-, hlt, hcount⟩ := hdecoder
  have hroom := h.room
  exact
    { two_le := h.two_le
      numBlocks_eq := h.numBlocks_eq
      writePos_eq := h.writePos_eq
      readPos_eq := by rw [h.readPos_eq, h.numBlocks_eq, Nat.mod_add_mod]
      released_le := hlt
      room := by
        show q.published.length < q.released + 1 + n
        omega
      acquired_eq := h.acquired_eq
      holds := h.holds.release (Nat.le_succ _)
      thread := h.thread.succ
      decoder := hcount }

theorem acquire (h : RxInv n q) (action : RxAction α)
    (hstep : acquireStep q action = some q') : RxInv n q' := by
  have hdecoder := h.decoder
  cases action with
  | loadWritePos => exact h.loadWritePos hstep
  | release => exact h.release hstep
  | acquire =>
    obtain ⟨hconsumer, rfl⟩ := acquireStep_acquire hstep
    rw [hconsumer] at hdecoder
    exact { h with decoder := ⟨h.readPos_eq, hdecoder⟩ }
  | loadDone =>
    obtain ⟨hconsumer, rfl⟩ := acquireStep_loadDone hstep
    rw [hconsumer] at hdecoder
    refine { h with decoder := ?_ }
    show DecoderInv _ _ _ _ (if q.done then .ending else .idle)
    split_ifs
    · exact hdecoder
    · exact hdecoder
  | loadError =>
    obtain ⟨hconsumer, rfl⟩ := acquireStep_loadError hstep
    rw [hconsumer] at hdecoder
    exact { h with decoder := hdecoder }
  | checkStop | deadline | loadReadPos | fill | readError | readTimeout | readData | captureError
  | publish | count | setDone | requestStop => cases hstep

/-! ### Every interleaving -/

/-- **The step lemma.** -/
theorem step (h : RxInv n q) (action : RxAction α) (hstep : rxStep q action = some q') :
    RxInv n q' := by
  cases action with
  | requestStop =>
    obtain rfl := Option.some.inj hstep
    exact { h with }
  | acquire => exact h.acquire .acquire hstep
  | loadWritePos => exact h.acquire .loadWritePos hstep
  | loadDone => exact h.acquire .loadDone hstep
  | loadError => exact h.acquire .loadError hstep
  | release => exact h.acquire .release hstep
  | checkStop => exact h.receive .checkStop hstep
  | deadline => exact h.receive .deadline hstep
  | loadReadPos => exact h.receive .loadReadPos hstep
  | fill block => exact h.receive (.fill block) hstep
  | readError => exact h.receive .readError hstep
  | readTimeout => exact h.receive .readTimeout hstep
  | readData => exact h.receive .readData hstep
  | captureError => exact h.receive .captureError hstep
  | publish => exact h.receive .publish hstep
  | count => exact h.receive .count hstep
  | setDone => exact h.receive .setDone hstep

/-- **The run lemma.** -/
theorem run (h : RxInv n q) (actions : List (RxAction α)) (hrun : rxRun q actions = some q') :
    RxInv n q' :=
  run_invariant (fun _ action _ h => h.step action) actions h hrun

end RxInv

/-- A queue that starts is empty. -/
theorem rxQueueStart_inv {numBlocks : ℕ} {storage : ℕ → List α} {q : RxQueue α}
    (hstart : rxQueueStart numBlocks storage = some q) : RxInv numBlocks q := by
  unfold rxQueueStart at hstart
  split_ifs at hstart with hfew
  obtain rfl := Option.some.inj hstart
  exact
    { two_le := not_lt.mp hfew
      numBlocks_eq := rfl
      writePos_eq := (Nat.zero_mod _).symm
      readPos_eq := (Nat.zero_mod _).symm
      released_le := le_rfl
      room := show 0 < 0 + numBlocks by omega
      acquired_eq := rfl
      holds := Holds.empty _ _ _
      thread := trivial
      decoder := rfl }

theorem RxInv.in_order {n : ℕ} {q : RxQueue α} (h : RxInv n q) : q.acquired <+: q.published := by
  rw [h.acquired_eq]
  exact List.take_prefix _ _

/-- Whether a block has been published since the last load of `write_pos`, the latest step
first. -/
def publishedSince : List (RxAction α) → Bool
  | [] => false
  | .loadWritePos :: _ => false
  | .publish :: _ => true
  | _ :: earlier => publishedSince earlier

/-- What the thread leaves alone, and what publishing is. -/
theorem receiveStep_frame {q q' : RxQueue α} {action : RxAction α}
    (hstep : receiveStep q action = some q') :
    q'.consumer = q.consumer ∧ q'.released = q.released ∧
      ((action = .publish ∧ q'.published.length = q.published.length + 1) ∨
        (q'.published = q.published ∧
          ∀ earlier, publishedSince (action :: earlier) = publishedSince earlier)) := by
  cases action with
  | publish =>
    obtain ⟨nextPos, -, rfl⟩ := receiveStep_publish hstep
    exact ⟨rfl, rfl, Or.inl ⟨rfl, by rw [List.length_append, List.length_singleton]⟩⟩
  | loadReadPos =>
    obtain ⟨-, ⟨-, rfl⟩ | ⟨-, rfl⟩⟩ := receiveStep_loadReadPos hstep
    · exact ⟨rfl, rfl, Or.inr ⟨rfl, fun _ => rfl⟩⟩
    · exact ⟨rfl, rfl, Or.inr ⟨rfl, fun _ => rfl⟩⟩
  | checkStop | deadline | fill | readError | readTimeout | readData | captureError | count
  | setDone =>
    unfold receiveStep at hstep
    dsimp only at hstep
    split at hstep
    · obtain rfl := Option.some.inj hstep
      exact ⟨rfl, rfl, Or.inr ⟨rfl, fun _ => rfl⟩⟩
    · cases hstep
  | acquire | loadWritePos | loadDone | loadError | release | requestStop => cases hstep

/-- What the decoder knows after it has found the queue empty: blocks it has not seen are blocks
published since. -/
structure LateInv (n : ℕ) (earlier : List (RxAction α)) (q : RxQueue α) : Prop where
  inv : RxInv n q
  known : q.consumer = .empty ∨ q.consumer = .ending →
    (publishedSince earlier = true ↔ q.released < q.published.length)

namespace LateInv

variable {n : ℕ} {q q' : RxQueue α} {earlier : List (RxAction α)}

theorem receive (h : LateInv n earlier q) {action : RxAction α}
    (hstep : receiveStep q action = some q') : LateInv n (action :: earlier) q' := by
  have hinv := h.inv.receive action hstep
  obtain ⟨hconsumer, hreleased, hpublished⟩ := receiveStep_frame hstep
  refine ⟨hinv, fun hempty => ?_⟩
  rw [hconsumer] at hempty
  obtain ⟨rfl, hlen⟩ | ⟨hsame, hsince⟩ := hpublished
  · rw [hreleased, hlen]
    exact ⟨fun _ => Nat.lt_succ_of_le h.inv.released_le, fun _ => rfl⟩
  · rw [hreleased, hsame, hsince]
    exact h.known hempty

/-- Found empty: all that was published has been released. -/
theorem loadWritePos (h : LateInv n earlier q)
    (hstep : acquireStep q .loadWritePos = some q') : LateInv n (.loadWritePos :: earlier) q' := by
  refine ⟨h.inv.acquire .loadWritePos hstep, fun hempty => ?_⟩
  obtain ⟨readPos, hconsumer, hfound⟩ := acquireStep_loadWritePos hstep
  have hdecoder := h.inv.decoder
  rw [hconsumer] at hdecoder
  obtain ⟨rfl, -⟩ := hdecoder
  obtain ⟨-, rfl⟩ | ⟨hnone, rfl⟩ := hfound
  · simp at hempty
  · have hall : q.released = q.published.length := by
      refine eq_of_mod_eq h.inv.released_le h.inv.room ?_
      rw [hnone, h.inv.writePos_eq]
    exact ⟨fun hlate => absurd hlate Bool.false_ne_true, fun hlt => absurd hall hlt.ne⟩

theorem loadDone (h : LateInv n earlier q) (hstep : acquireStep q .loadDone = some q') :
    LateInv n (.loadDone :: earlier) q' := by
  refine ⟨h.inv.acquire .loadDone hstep, fun _ => ?_⟩
  obtain ⟨hconsumer, rfl⟩ := acquireStep_loadDone hstep
  exact h.known (Or.inl hconsumer)

/-- The other steps of the decoder leave it elsewhere. -/
theorem elsewhere (h : LateInv n earlier q) {action : RxAction α}
    (hstep : acquireStep q action = some q')
    (hother : action = .acquire ∨ action = .loadError ∨ action = .release) :
    LateInv n (action :: earlier) q' := by
  refine ⟨h.inv.acquire action hstep, fun hempty => ?_⟩
  obtain rfl | rfl | rfl := hother
  · obtain ⟨-, rfl⟩ := acquireStep_acquire hstep
    simp at hempty
  · obtain ⟨-, rfl⟩ := acquireStep_loadError hstep
    simp at hempty
  · obtain ⟨readPos, -, rfl⟩ := acquireStep_release hstep
    simp at hempty

theorem step (h : LateInv n earlier q) (action : RxAction α)
    (hstep : rxStep q action = some q') : LateInv n (action :: earlier) q' := by
  cases action with
  | requestStop =>
    refine ⟨h.inv.step .requestStop hstep, ?_⟩
    obtain rfl := Option.some.inj hstep
    exact h.known
  | loadWritePos => exact h.loadWritePos hstep
  | loadDone => exact h.loadDone hstep
  | acquire => exact h.elsewhere hstep (Or.inl rfl)
  | loadError => exact h.elsewhere hstep (Or.inr (Or.inl rfl))
  | release => exact h.elsewhere hstep (Or.inr (Or.inr rfl))
  | checkStop | deadline | loadReadPos | fill | readError | readTimeout | readData | captureError
  | publish | count | setDone => exact h.receive hstep

theorem run (h : LateInv n earlier q) (actions : List (RxAction α))
    (hrun : rxRun q actions = some q') : LateInv n (actions.reverse ++ earlier) q' :=
  run_induction (fun _ _ action _ h => h.step action) earlier actions h hrun

end LateInv

/-- A decoder about to return from the end of the stream has all blocks exactly when none was
published since it found the queue empty. -/
theorem LateInv.acquired_eq_iff {n : ℕ} {q : RxQueue α} {earlier : List (RxAction α)}
    (h : LateInv n earlier q) (hending : q.consumer = .ending) :
    q.acquired = q.published ↔ publishedSince earlier = false := by
  have hdecoder := h.inv.decoder
  rw [hending] at hdecoder
  have hcount : q.acquired.length = q.released := hdecoder
  rw [← Bool.not_eq_true, h.known (Or.inr hending), not_lt]
  constructor
  · intro hall
    rw [← hcount, hall]
  · intro hle
    rw [h.inv.acquired_eq, hcount]
    exact List.take_of_length_le hle

theorem rxStep_loadError {q q' : RxQueue α} (hstep : rxStep q .loadError = some q') :
    q.consumer = .ending ∧ q'.acquired = q.acquired ∧ q'.published = q.published ∧
      q'.lastReturn = some (if q.error then -1 else 1) := by
  have hacquire : acquireStep q .loadError = some q' := hstep
  obtain ⟨hconsumer, rfl⟩ := acquireStep_loadError hacquire
  exact ⟨hconsumer, rfl, rfl, rfl⟩

/-- The end of the stream is reported only when every block published has been acquired: of each
load of `error` that makes `pluto_rx_queue_acquire` return 1. -/
def EndsComplete (q₀ : RxQueue α) (actions : List (RxAction α)) : Prop :=
  ∀ earlier later q, actions = earlier ++ .loadError :: later →
    rxRun q₀ (earlier ++ [.loadError]) = some q → q.lastReturn = some 1 →
    q.acquired = q.published

/-- No block is published between the last load of `write_pos` and a load of `error` that finds
none. -/
def NoLatePublish (q₀ : RxQueue α) (actions : List (RxAction α)) : Prop :=
  ∀ earlier later q, actions = earlier ++ .loadError :: later → rxRun q₀ earlier = some q →
    q.error = false → publishedSince earlier.reverse = false

/-- **A published block is dropped at the end of the stream exactly when it is published too
late**: in every run, each end that is reported comes after all blocks if and only if no block is
published between acquire's load of `write_pos` and its return. -/
theorem rxQueue_end_of_stream_iff {numBlocks : ℕ} {storage : ℕ → List α} {q₀ q : RxQueue α}
    (hstart : rxQueueStart numBlocks storage = some q₀) {actions : List (RxAction α)}
    (hrun : rxRun q₀ actions = some q) :
    EndsComplete q₀ actions ↔ NoLatePublish q₀ actions := by
  have hinv : LateInv numBlocks [] q₀ := by
    refine ⟨rxQueueStart_inv hstart, fun hempty => ?_⟩
    unfold rxQueueStart at hstart
    split_ifs at hstart
    obtain rfl := Option.some.inj hstart
    simp at hempty
  have hlate : ∀ earlier q₁, rxRun q₀ earlier = some q₁ → LateInv numBlocks earlier.reverse q₁ := by
    intro earlier q₁ hearlier
    have := hinv.run earlier hearlier
    rwa [List.append_nil] at this
  constructor
  · intro hends earlier later q₁ hactions hearlier herror
    obtain ⟨q₂, hstep⟩ : ∃ q₂, rxStep q₁ .loadError = some q₂ := by
      rw [hactions] at hrun
      obtain ⟨_, q₂, hfirst, hstep⟩ := run_split hrun
      obtain rfl := Option.some.inj (hearlier.symm.trans hfirst)
      exact ⟨q₂, hstep⟩
    obtain ⟨hending, hacquired, hpublished, hreturn⟩ := rxStep_loadError hstep
    have hall := hends earlier later q₂ hactions (run_concat.mpr ⟨q₁, hearlier, hstep⟩)
      (by rw [hreturn, herror]; rfl)
    rw [hacquired, hpublished] at hall
    exact ((hlate earlier q₁ hearlier).acquired_eq_iff hending).mp hall
  · intro hnone earlier later q₂ hactions hboth hreturn
    obtain ⟨q₁, hearlier, hstep⟩ := run_concat.mp hboth
    obtain ⟨hending, hacquired, hpublished, hcode⟩ := rxStep_loadError hstep
    have herror : q₁.error = false := by
      rw [hcode] at hreturn
      cases herror : q₁.error with
      | false => rfl
      | true =>
        rw [herror] at hreturn
        exact absurd (Option.some.inj hreturn) (by decide)
    rw [hacquired, hpublished]
    exact ((hlate earlier q₁ hearlier).acquired_eq_iff hending).mpr
      (hnone earlier later q₁ hactions hearlier herror)

end

/-- The last block and the end of the stream both fall between the decoder's loads of `write_pos`
and `done`. -/
def lateBlock : List (RxAction ℕ) :=
  [.acquire, .loadWritePos, .checkStop, .loadReadPos, .fill ⟨[7], 1⟩, .readData, .publish, .count,
    .checkStop, .deadline, .setDone, .loadDone, .loadError]

/-- The end is reported and the block is not acquired. -/
theorem rxQueue_drops_last_block :
    ∃ q₀ q, rxQueueStart 2 (fun _ => ([] : List ℕ)) = some q₀ ∧ rxRun q₀ lateBlock = some q ∧
      q.lastReturn = some 1 ∧ q.acquired ≠ q.published := by
  refine ⟨_, _, rfl, rfl, rfl, ?_⟩
  decide

/-- A stream of one block, which is acquired before the end. -/
def oneBlock : List (RxAction ℕ) :=
  [.checkStop, .loadReadPos, .fill ⟨[7], 1⟩, .readData, .publish, .count, .acquire, .loadWritePos,
    .release, .checkStop, .deadline, .setDone, .acquire, .loadWritePos, .loadDone, .loadError]

theorem rxQueue_end_of_stream_iff_block :
    ∃ q₀ q, rxQueueStart 2 (fun _ => ([] : List ℕ)) = some q₀ ∧ rxRun q₀ oneBlock = some q ∧
      q.lastReturn = some 1 ∧ q.acquired.length = 1 ∧ q.acquired = q.published ∧
      (EndsComplete q₀ oneBlock ↔ NoLatePublish q₀ oneBlock) := by
  have hstart : rxQueueStart 2 (fun _ => ([] : List ℕ)) = some _ := rfl
  exact ⟨_, _, hstart, rfl, rfl, rfl, rfl, rxQueue_end_of_stream_iff hstart rfl⟩

end OpenVlsnr
