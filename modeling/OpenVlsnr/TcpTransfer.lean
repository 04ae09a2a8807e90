import OpenVlsnr.GsFrame

/-!
# Transfers over TCP (`tcp.c`)

`dvbs2x_tcp_send` and `dvbs2x_tcp_recv` call the kernel until all of a buffer has been moved.  Both
are one loop (`tcpLoop`), given the results of its system calls in order: whatever they are, the
regions passed to the kernel follow each other from the start of the buffer and the counter counts
them (`TcpLoop.Inv`).  The value returned is the length as an `int`, which it fits in only below
`2 ^ 31` (`tcpTransfer_exact_iff`).
-/

namespace OpenVlsnr

/-! ### The code -/

abbrev eintr : ℤ := 4
abbrev einval : ℤ := 22
abbrev epipe : ℤ := 32
abbrev enotconn : ℤ := 107

/-- `DVBS2X_INVALID_SOCKET`. -/
abbrev invalidSocket : ℤ := -1

/-- `SSIZE_MAX`: no call moves more than that. -/
abbrev ssizeMax : ℕ := 2 ^ 63 - 1

/-- `(int)len`. -/
def intOfSize (len : ℕ) : ℤ := (BitVec.ofNat 32 len).toInt

/-- `struct dvbs2x_tcp_ctx`. -/
structure TcpCtx where
  sock : ℤ
  txBytes : BitVec 64
  rxBytes : BitVec 64

/-- What a system call comes back with: it moved `x`, or it failed. -/
inductive SockResult (β : Type*) where
  | moved (x : β)
  | failed (errno : ℤ)

/-- The variables of a transfer: `p - buf`, `remaining`, the counter, and the regions of the buffer
that calls have moved so far, with their contents. -/
structure TcpLoop where
  pos : ℕ
  remaining : ℕ
  count : BitVec 64
  chunks : List (ℕ × List Byte)

/-- The bytes moved, in order. -/
def TcpLoop.bytes (l : TcpLoop) : List Byte := l.chunks.flatMap Prod.snd

/-- `p += n; remaining -= n; ctx->tx_bytes += n`. -/
def TcpLoop.move (l : TcpLoop) (data : List Byte) : TcpLoop :=
  { pos := l.pos + data.length
    remaining := l.remaining - data.length
    count := l.count + BitVec.ofNat 64 data.length
    chunks := l.chunks ++ [(l.pos, data)] }

section
variable {β : Type*}

/-- The loop of both directions.  A call at `pos` that is asked for `remaining` bytes moves
`bytes x pos remaining`; `closed` is returned when it moves none.  The loop has returned nothing yet
when the results run out. -/
def tcpLoop (bytes : β → ℕ → ℕ → List Byte) (closed : TcpLoop → ℤ) (len : ℕ) :
    List (SockResult β) → TcpLoop → TcpLoop × Option ℤ
  | [], l => (l, if l.remaining = 0 then some (intOfSize len) else none)
  | result :: results, l =>
    if l.remaining = 0 then (l, some (intOfSize len))
    else
      match result with
      | .failed errno =>
        if errno = eintr then tcpLoop bytes closed len results l else (l, some (-errno))
      | .moved x =>
        let data := bytes x l.pos l.remaining
        if data = [] then (l, some (closed l))
        else tcpLoop bytes closed len results (l.move data)

end

/-- A `send` of up to `n` bytes. -/
def sendBytes (buf : List Byte) (n pos remaining : ℕ) : List Byte :=
  (buf.drop pos).take (min n (min remaining ssizeMax))

/-- A `recv` for which `data` is there. -/
def recvBytes (data : List Byte) (_pos remaining : ℕ) : List Byte :=
  data.take (min remaining ssizeMax)

/-- A call so far: the context and the buffer, the regions moved, and the value returned, if it has
returned. -/
structure TcpOutcome where
  ctx : Option TcpCtx
  buf : Option (List Byte)
  chunks : List (ℕ × List Byte)
  ret : Option ℤ

def TcpOutcome.bytes (o : TcpOutcome) : List Byte := o.chunks.flatMap Prod.snd

/-- `dvbs2x_tcp_send`. -/
def tcpSend (ctx : Option TcpCtx) (buf : Option (List Byte)) (len : ℕ)
    (results : List (SockResult ℕ)) : TcpOutcome :=
  match ctx, buf with
  | some c, some b =>
    if c.sock = invalidSocket then ⟨ctx, buf, [], some (-enotconn)⟩
    else
      let r := tcpLoop (sendBytes b) (fun _ => -epipe) len results ⟨0, len, c.txBytes, []⟩
      ⟨some { c with txBytes := r.1.count }, buf, r.1.chunks, r.2⟩
  | _, _ => ⟨ctx, buf, [], some (-einval)⟩

/-- What the calls have stored. -/
def storeChunks (buf : List Byte) (chunks : List (ℕ × List Byte)) : List Byte :=
  chunks.foldl (fun buf c => memcpyAt buf c.1 c.2) buf

/-- `dvbs2x_tcp_recv`.  A timeout shows in the results only. -/
def tcpRecv (ctx : Option TcpCtx) (buf : Option (List Byte)) (len : ℕ)
    (results : List (SockResult (List Byte))) : TcpOutcome :=
  match ctx, buf with
  | some c, some b =>
    if c.sock = invalidSocket then ⟨ctx, buf, [], some (-enotconn)⟩
    else
      let r := tcpLoop recvBytes (fun l => intOfSize (len - l.remaining)) len results
        ⟨0, len, c.rxBytes, []⟩
      ⟨some { c with rxBytes := r.1.count }, some (storeChunks b r.1.chunks), r.1.chunks, r.2⟩
  | _, _ => ⟨ctx, buf, [], some (-einval)⟩

/-! ### The loop -/

/-- Regions that follow each other from `off` on, without gap or repetition. -/
def Contiguous (off : ℕ) (chunks : List (ℕ × List Byte)) : Prop :=
  ∀ before c after, chunks = before ++ c :: after →
    c.1 = off + (before.flatMap Prod.snd).length

theorem Contiguous.concat {off : ℕ} {chunks : List (ℕ × List Byte)} (h : Contiguous off chunks)
    {c : ℕ × List Byte} (hc : c.1 = off + (chunks.flatMap Prod.snd).length) :
    Contiguous off (chunks ++ [c]) := by
  intro before c' after heq
  cases after using List.reverseRecOn with
  | nil =>
    obtain ⟨rfl, hlast⟩ := List.append_inj' heq rfl
    obtain rfl := List.singleton_inj.mp hlast
    exact hc
  | append_singleton after last =>
    rw [← List.cons_append, ← List.append_assoc] at heq
    exact h before c' after (List.append_inj' heq rfl).1

/-- What a transfer of `len` bytes keeps. -/
structure TcpLoop.Inv (count₀ : BitVec 64) (len : ℕ) (l : TcpLoop) : Prop where
  pos_eq : l.pos = l.bytes.length
  total : l.pos + l.remaining = len
  count_eq : l.count = count₀ + BitVec.ofNat 64 l.pos
  inOrder : Contiguous 0 l.chunks

theorem TcpLoop.bytes_move (l : TcpLoop) (data : List Byte) :
    (l.move data).bytes = l.bytes ++ data := by
  simp [TcpLoop.bytes, TcpLoop.move]

theorem TcpLoop.Inv.start (count₀ : BitVec 64) (len : ℕ) :
    TcpLoop.Inv count₀ len ⟨0, len, count₀, []⟩ where
  pos_eq := rfl
  total := Nat.zero_add len
  count_eq := (BitVec.add_zero count₀).symm
  inOrder before c after h := by simp at h

/-- **One call** that moves bytes. -/
theorem TcpLoop.Inv.move {count₀ : BitVec 64} {len : ℕ} {l : TcpLoop} (h : l.Inv count₀ len)
    {data : List Byte} (hdata : data.length ≤ l.remaining) : (l.move data).Inv count₀ len where
  pos_eq := by
    rw [TcpLoop.bytes_move, List.length_append, ← h.pos_eq]
    rfl
  total := by
    have htotal := h.total
    show l.pos + data.length + (l.remaining - data.length) = len
    omega
  count_eq := by
    show l.count + BitVec.ofNat 64 data.length = _
    rw [h.count_eq, BitVec.add_assoc, ← BitVec.ofNat_add]
    rfl
  inOrder := h.inOrder.concat (by rw [Nat.zero_add]; exact h.pos_eq)

section
variable {β : Type*} (bytes : β → ℕ → ℕ → List Byte) (closed : TcpLoop → ℤ) {len : ℕ}

/-- **A run of the loop**, by induction on the results: what the calls keep holds at any time, and
once everything has been moved the loop returns. -/
theorem tcpLoop_run (P : TcpLoop → Prop)
    (hmove : ∀ x l, P l → P (l.move (bytes x l.pos l.remaining))) (results : List (SockResult β))
    {l : TcpLoop} (h : P l) :
    P (tcpLoop bytes closed len results l).1 ∧
      ((tcpLoop bytes closed len results l).1.remaining = 0 →
        (tcpLoop bytes closed len results l).2 = some (intOfSize len)) := by
  induction results generalizing l with
  | nil => exact ⟨h, fun hdone => if_pos hdone⟩
  | cons result results ih =>
    cases result with
    | failed errno =>
      rw [tcpLoop]
      split_ifs with hdone
      · exact ⟨h, fun _ => rfl⟩
      · exact ih h
      · exact ⟨h, fun hzero => absurd hzero hdone⟩
    | moved x =>
      rw [tcpLoop]
      dsimp only
      split_ifs with hdone
      · exact ⟨h, fun _ => rfl⟩
      · exact ⟨h, fun hzero => absurd hzero hdone⟩
      · exact ih (hmove x l h)

/-- Calls that move something every time move everything. -/
theorem tcpLoop_completes (x : β) (hone : ∀ pos remaining, pos + remaining = len →
      0 < remaining → (bytes x pos remaining).length = 1) (n : ℕ) {l : TcpLoop}
    (htotal : l.pos + l.remaining = len) (hn : l.remaining ≤ n) :
    (tcpLoop bytes closed len (List.replicate n (.moved x)) l).1.remaining = 0 := by
  induction n generalizing l with
  | zero => exact Nat.le_zero.mp hn
  | succ n ih =>
    rw [List.replicate_succ, tcpLoop]
    by_cases hdone : l.remaining = 0
    · rw [if_pos hdone]
      exact hdone
    · rw [if_neg hdone]
      have hlen := hone l.pos l.remaining htotal (Nat.pos_of_ne_zero hdone)
      have hne : bytes x l.pos l.remaining ≠ [] := by
        intro hnil
        rw [hnil] at hlen
        exact absurd hlen (by decide)
      dsimp only
      rw [if_neg hne]
      apply ih
      · show l.pos + _ + (l.remaining - _) = len
        omega
      · show l.remaining - _ ≤ n
        omega

end

/-! ### The two directions -/

theorem sendBytes_length_le (buf : List Byte) (n pos remaining : ℕ) :
    (sendBytes buf n pos remaining).length ≤ remaining := by
  rw [sendBytes, List.length_take]
  omega

theorem recvBytes_length_le (data : List Byte) (pos remaining : ℕ) :
    (recvBytes data pos remaining).length ≤ remaining := by
  rw [recvBytes, List.length_take]
  omega

/-- A send moves on through the buffer. -/
theorem sendBytes_take {buf : List Byte} {l : TcpLoop}
    (h : l.bytes = buf.take l.pos) (n : ℕ) :
    (l.move (sendBytes buf n l.pos l.remaining)).bytes
      = buf.take (l.pos + (sendBytes buf n l.pos l.remaining).length) := by
  rw [TcpLoop.bytes_move, h, List.take_add, sendBytes]
  congr 1
  rw [List.length_take, List.take_eq_take_iff]
  omega

theorem storeChunks_concat (buf : List Byte) (chunks : List (ℕ × List Byte))
    (c : ℕ × List Byte) :
    storeChunks buf (chunks ++ [c]) = memcpyAt (storeChunks buf chunks) c.1 c.2 := by
  simp [storeChunks]

/-- What has been stored is what came in, in front of the old contents. -/
theorem storeChunks_eq {buf : List Byte} (chunks : List (ℕ × List Byte))
    (h : Contiguous 0 chunks) :
    storeChunks buf chunks = chunks.flatMap Prod.snd
      ++ buf.drop (chunks.flatMap Prod.snd).length := by
  induction chunks using List.reverseRecOn with
  | nil => rfl
  | append_singleton chunks c ih =>
    have hinit : Contiguous 0 chunks := fun before c' after heq =>
      h before c' (after ++ [c]) (by rw [heq]; simp)
    have hc := h chunks c [] rfl
    rw [Nat.zero_add] at hc
    rw [storeChunks_concat, ih hinit, memcpyAt_behind _ _ _ hc.symm, List.drop_drop,
      List.flatMap_append, List.length_append]
    simp

theorem intOfSize_eq_iff (len : ℕ) : intOfSize len = len ↔ len < 2 ^ 31 := by
  unfold intOfSize
  constructor
  · intro h
    have hlt := BitVec.toInt_lt (x := BitVec.ofNat 32 len)
    rw [h] at hlt
    norm_num at hlt ⊢
    exact_mod_cast hlt
  · intro h
    rw [BitVec.toInt_eq_toNat_of_lt]
    · rw [BitVec.toNat_ofNat, Nat.mod_eq_of_lt (by omega)]
    · rw [BitVec.toNat_ofNat, Nat.mod_eq_of_lt (by omega)]
      omega

/-! ### Exact transfers -/

/-- What a transfer of `len` bytes promises at any time: the regions moved follow each other from
the start of the buffer, the counter has grown by their length, and a call that has moved them all
returns `len`. -/
structure TransferExact (count count' : BitVec 64) (len : ℕ) (o : TcpOutcome) : Prop where
  inOrder : Contiguous 0 o.chunks
  le : o.bytes.length ≤ len
  counted : count' = count + BitVec.ofNat 64 o.bytes.length
  complete : o.bytes.length = len → o.ret = some (len : ℤ)

/-- The bytes handed to the kernel are a prefix of the buffer, which stays as it is. -/
structure SendExact (c : TcpCtx) (buf : List Byte) (len : ℕ) (o : TcpOutcome) : Prop where
  bytes_eq : o.bytes = buf.take o.bytes.length
  buf_eq : o.buf = some buf
  transfer : ∃ count', o.ctx = some { c with txBytes := count' } ∧
    TransferExact c.txBytes count' len o

/-- The bytes received are stored as a prefix of the buffer, in front of its old contents. -/
structure RecvExact (c : TcpCtx) (buf : List Byte) (len : ℕ) (o : TcpOutcome) : Prop where
  buf_eq : o.buf = some (o.bytes ++ buf.drop o.bytes.length)
  transfer : ∃ count', o.ctx = some { c with rxBytes := count' } ∧
    TransferExact c.rxBytes count' len o

section
variable {c : TcpCtx} {buf : List Byte} {len : ℕ}

theorem TcpLoop.Inv.exact {count₀ : BitVec 64} {l : TcpLoop} (h : l.Inv count₀ len)
    {o : TcpOutcome} (hchunks : o.chunks = l.chunks)
    (hret : l.remaining = 0 → o.ret = some (intOfSize len)) (hlen : len < 2 ^ 31) :
    TransferExact count₀ l.count len o := by
  have hbytes : o.bytes.length = l.pos := by
    rw [TcpOutcome.bytes, hchunks]
    exact h.pos_eq.symm
  have htotal := h.total
  refine ⟨by rw [hchunks]; exact h.inOrder, by omega, by rw [hbytes]; exact h.count_eq, ?_⟩
  intro hall
  rw [hret (by omega), (intOfSize_eq_iff len).mpr hlen]

/-- Sending: what holds behind any results. -/
theorem tcpSend_exact (hsock : c.sock ≠ invalidSocket) (hlen : len < 2 ^ 31)
    (results : List (SockResult ℕ)) :
    SendExact c buf len (tcpSend (some c) (some buf) len results) := by
  obtain ⟨⟨hinv, htake⟩, hret⟩ := tcpLoop_run (sendBytes buf) (fun _ => -epipe)
    (fun l => l.Inv c.txBytes len ∧ l.bytes = buf.take l.pos)
    (fun n l h => ⟨h.1.move (sendBytes_length_le buf n _ _), sendBytes_take h.2 n⟩)
    results ⟨.start c.txBytes len, rfl⟩
  unfold tcpSend
  dsimp only
  rw [if_neg hsock]
  refine ⟨?_, rfl, _, rfl, hinv.exact rfl hret hlen⟩
  show TcpLoop.bytes _ = _
  rw [TcpOutcome.bytes, ← TcpLoop.bytes, ← hinv.pos_eq]
  exact htake

/-- Receiving. -/
theorem tcpRecv_exact (hsock : c.sock ≠ invalidSocket) (hlen : len < 2 ^ 31)
    (results : List (SockResult (List Byte))) :
    RecvExact c buf len (tcpRecv (some c) (some buf) len results) := by
  obtain ⟨hinv, hret⟩ := tcpLoop_run recvBytes
    (fun l => intOfSize (len - l.remaining))
    (fun l => l.Inv c.rxBytes len) (fun data l h => h.move (recvBytes_length_le data _ _))
    results (.start c.rxBytes len)
  unfold tcpRecv
  dsimp only
  rw [if_neg hsock]
  exact ⟨congrArg some (storeChunks_eq _ hinv.inOrder), _, rfl, hinv.exact rfl hret hlen⟩

/-- A complete transfer returns the length as an `int`, so it returns the length only if that
fits. -/
theorem lt_of_complete {l : TcpLoop} {count₀ count' : BitVec 64} (h : l.Inv count₀ len)
    {o : TcpOutcome} (hchunks : o.chunks = l.chunks) (hdone : l.remaining = 0)
    (hret : o.ret = some (intOfSize len)) (hexact : TransferExact count₀ count' len o) :
    len < 2 ^ 31 := by
  have hbytes : o.bytes.length = len := by
    rw [TcpOutcome.bytes, hchunks, ← h.total, hdone, Nat.add_zero]
    exact h.pos_eq.symm
  have hlen := hexact.complete hbytes
  rw [hret] at hlen
  exact (intOfSize_eq_iff len).mp (Option.some.inj hlen)

/-- Sending a long buffer byte by byte. -/
theorem lt_of_tcpSend_exact (hsock : c.sock ≠ invalidSocket) (hbuf : len ≤ buf.length)
    (h : ∀ results, SendExact c buf len (tcpSend (some c) (some buf) len results)) :
    len < 2 ^ 31 := by
  have hone : ∀ pos remaining, pos + remaining = len → 0 < remaining →
      (sendBytes buf 1 pos remaining).length = 1 := by
    intro pos remaining htotal hpos
    have hmax : 0 < ssizeMax := by decide
    rw [sendBytes, List.length_take, List.length_drop]
    omega
  have hdone := tcpLoop_completes (sendBytes buf) (fun _ => -epipe) 1 hone len
    (l := ⟨0, len, c.txBytes, []⟩) (Nat.zero_add len) le_rfl
  obtain ⟨hinv, hret⟩ := tcpLoop_run (sendBytes buf) (fun _ => -epipe)
    (fun l => l.Inv c.txBytes len)
    (fun n l h => h.move (sendBytes_length_le buf n _ _))
    (List.replicate len (.moved 1)) (.start c.txBytes len)
  obtain ⟨-, -, count', -, hexact⟩ := h (List.replicate len (.moved 1))
  unfold tcpSend at hexact
  dsimp only at hexact
  rw [if_neg hsock] at hexact
  exact lt_of_complete hinv rfl hdone (hret hdone) hexact

/-- Receiving one byte by byte. -/
theorem lt_of_tcpRecv_exact (hsock : c.sock ≠ invalidSocket)
    (h : ∀ results, RecvExact c buf len (tcpRecv (some c) (some buf) len results)) :
    len < 2 ^ 31 := by
  have hone : ∀ pos remaining, pos + remaining = len → 0 < remaining →
      (recvBytes [0] pos remaining).length = 1 := by
    intro pos remaining _ hpos
    have hmax : 0 < ssizeMax := by decide
    rw [recvBytes, List.length_take, List.length_singleton]
    omega
  have hdone := tcpLoop_completes recvBytes
    (fun l => intOfSize (len - l.remaining)) [0] hone len
    (l := ⟨0, len, c.rxBytes, []⟩) (Nat.zero_add len) le_rfl
  obtain ⟨hinv, hret⟩ := tcpLoop_run recvBytes
    (fun l => intOfSize (len - l.remaining))
    (fun l => l.Inv c.rxBytes len) (fun data l h => h.move (recvBytes_length_le data _ _))
    (List.replicate len (.moved [0])) (.start c.rxBytes len)
  obtain ⟨-, count', -, hexact⟩ := h (List.replicate len (.moved [0]))
  unfold tcpRecv at hexact
  dsimp only at hexact
  rw [if_neg hsock] at hexact
  exact lt_of_complete hinv rfl hdone (hret hdone) hexact

/-- **Transfers are exact below `2 ^ 31` bytes, and not beyond.**  For every open socket, every
length that the buffer has: every sequence of partial transfers, interruptions and failures moves a
prefix in order, counts it and returns the length when complete, in both directions, if and only if
the length fits in an `int`. -/
theorem tcpTransfer_exact_iff (hsock : c.sock ≠ invalidSocket) (hbuf : len ≤ buf.length) :
    ((∀ results, SendExact c buf len (tcpSend (some c) (some buf) len results)) ↔ len < 2 ^ 31) ∧
      ((∀ results, RecvExact c buf len (tcpRecv (some c) (some buf) len results)) ↔
        len < 2 ^ 31) :=
  ⟨⟨lt_of_tcpSend_exact hsock hbuf, fun hlen results => tcpSend_exact hsock hlen results⟩,
    ⟨lt_of_tcpRecv_exact hsock, fun hlen results => tcpRecv_exact hsock hlen results⟩⟩

/-- A buffer that a single call takes. -/
theorem tcpSend_at_once (hsock : c.sock ≠ invalidSocket) (hlen : buf.length = len) (hpos : 0 < len)
    (hmax : len ≤ ssizeMax) : tcpSend (some c) (some buf) len [.moved len]
      = ⟨some { c with txBytes := c.txBytes + BitVec.ofNat 64 len }, some buf, [(0, buf)],
          some (intOfSize len)⟩ := by
  have hdata : sendBytes buf len 0 len = buf := by
    rw [sendBytes, List.drop_zero, List.take_of_length_le (by omega)]
  have hne : buf ≠ [] := List.ne_nil_of_length_pos (by omega)
  unfold tcpSend
  dsimp only
  rw [if_neg hsock, tcpLoop, if_neg hpos.ne']
  dsimp only
  rw [hdata, if_neg hne, tcpLoop, TcpLoop.move, hlen]
  dsimp only
  rw [if_pos (Nat.sub_self len)]
  rfl

end

/-- An open socket. -/
def openSocket : TcpCtx := ⟨3, 0, 0⟩

theorem tcpTransfer_exact_iff_byte :
    ((∀ results, SendExact openSocket [1] 1 (tcpSend (some openSocket) (some [1]) 1 results)) ↔
        1 < 2 ^ 31) ∧
      ((∀ results, RecvExact openSocket [1] 1 (tcpRecv (some openSocket) (some [1]) 1 results)) ↔
        1 < 2 ^ 31) :=
  tcpTransfer_exact_iff (by decide) le_rfl

/-- Two gibibytes, sent at once: the call returns a negative number. -/
theorem tcpSend_long :
    (tcpSend (some openSocket) (some (List.replicate (2 ^ 31) 0)) (2 ^ 31) [.moved (2 ^ 31)]).ret
        = some (-2147483648) ∧
      ¬SendExact openSocket (List.replicate (2 ^ 31) 0) (2 ^ 31)
        (tcpSend (some openSocket) (some (List.replicate (2 ^ 31) 0)) (2 ^ 31)
          [.moved (2 ^ 31)]) := by
  have hlen : (List.replicate (2 ^ 31) (0 : Byte)).length = 2 ^ 31 := List.length_replicate
  have hret : intOfSize (2 ^ 31) = -2147483648 := by decide
  rw [tcpSend_at_once (by decide) hlen (by decide) (by decide), hret]
  refine ⟨rfl, ?_⟩
  rintro ⟨-, -, count', -, -, -, -, hcomplete⟩
  have hbytes : (TcpOutcome.bytes ⟨some { openSocket with
      txBytes := openSocket.txBytes + BitVec.ofNat 64 (2 ^ 31) },
      some (List.replicate (2 ^ 31) 0), [(0, List.replicate (2 ^ 31) 0)],
      some (-2147483648)⟩).length = 2 ^ 31 := by
    rw [TcpOutcome.bytes, List.flatMap_cons, List.flatMap_nil, List.append_nil, hlen]
  exact absurd (hcomplete hbytes) (by decide)

end OpenVlsnr
