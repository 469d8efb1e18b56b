import Web3Proxy.ResponseReceiver

/-!
# Web3Proxy.ResponseReceiver.Tls

Receiving a response over TLS.  `BaseSocket.is_ready_read` asks `select`, which knows of the bytes
in the kernel only; `recv` of a TLS socket decrypts a whole record and keeps what does not fit into
the buffer.

* `TlsSocket.readsFrom_eq` — what the loop of `recv_response` gets to read: all of the records, but
  for the part of the last one that the buffer leaves behind;
* `delivered_iff` — a response is received to its end exactly when its last record fits into the
  receive buffer.
-/

namespace Web3Proxy

open Py Bytes Http

/-- A TLS socket: the records that have not been decrypted, which are in the kernel or arrive while
`select` waits for them, and the decrypted bytes that have not been read. -/
structure TlsSocket where
  records : List Bytes
  decrypted : Bytes := []
deriving DecidableEq, Repr

namespace TlsSocket

variable (n : Nat) (s : TlsSocket)

/-- `is_ready_read(timeout)`. -/
def isReadyRead : Bool := !s.records.isEmpty

/-- `recv(buf_size)`. -/
def recv : Bytes × TlsSocket :=
  match s.decrypted, s.records with
  | [], [] => ([], s)
  | [], record :: records => (record.take n, { records, decrypted := record.drop n })
  | decrypted, _ => (decrypted.take n, { s with decrypted := decrypted.drop n })

/-- What at most so many rounds of `is_ready_read` and `recv` come to, up to the first one that
finds nothing to read. -/
def readsFrom : Nat → TlsSocket → List SocketRead
  | 0, _ => []
  | rounds + 1, s =>
      if s.isReadyRead then .data (s.recv n).1 :: readsFrom rounds (s.recv n).2 else [.notReady]

/-- Each read takes away a byte or a record. -/
def size : Nat := s.records.flatten.length + s.records.length + s.decrypted.length

/-- What the socket has to offer. -/
def reads : List SocketRead := readsFrom n (s.size + 1) s

/-- What is left in the socket when the kernel has no more. -/
def stranded : Bytes := (s.records.getLast?.map (List.drop n)).getD s.decrypted

section Reads

variable {n : Nat}

theorem recv_next (record : Bytes) (records : List Bytes) :
    recv n ⟨record :: records, []⟩ = (record.take n, ⟨records, record.drop n⟩) := rfl

theorem recv_decrypted (records : List Bytes) {decrypted : Bytes} (h : decrypted ≠ []) :
    recv n ⟨records, decrypted⟩ = (decrypted.take n, ⟨records, decrypted.drop n⟩) := by
  cases decrypted with
  | nil => exact absurd rfl h
  | cons b bs => rfl

theorem readsFrom_cons (rounds : Nat) (record : Bytes) (records : List Bytes) (decrypted : Bytes) :
    readsFrom n (rounds + 1) ⟨record :: records, decrypted⟩ =
      .data (recv n ⟨record :: records, decrypted⟩).1 ::
        readsFrom n rounds (recv n ⟨record :: records, decrypted⟩).2 := rfl

/-- One more record after the next one does not change what the last one leaves. -/
theorem stranded_cons (record : Bytes) (records : List Bytes) (decrypted : Bytes) :
    stranded n ⟨record :: records, decrypted⟩ = stranded n ⟨records, record.drop n⟩ := by
  cases records with
  | nil => rfl
  | cons r rs =>
      have hlast : (r :: rs).getLast? = some ((r :: rs).getLast (List.cons_ne_nil r rs)) :=
        List.getLast?_eq_some_getLast _
      simp only [stranded, List.getLast?_cons_cons, hlast, Option.map_some, Option.getD_some]

/-- **Reading all there is.**  The reads deliver, in order, the decrypted bytes and all records, but
for what is stranded; then the socket is not ready. -/
theorem readsFrom_eq (hn : 0 < n) {rounds : Nat} {s : TlsSocket} (hrounds : s.size < rounds)
    (hrecords : ∀ record ∈ s.records, record ≠ []) :
    ∃ cs : List Bytes, readsFrom n rounds s = cs.map .data ++ [.notReady] ∧
      (∀ c ∈ cs, c ≠ []) ∧ cs.flatten ++ s.stranded n = s.decrypted ++ s.records.flatten := by
  induction rounds generalizing s with
  | zero => omega
  | succ rounds ih =>
      obtain ⟨records, decrypted⟩ := s
      have htake {bytes : Bytes} (h : bytes ≠ []) : bytes.take n ≠ [] := by
        simpa [List.take_eq_nil_iff, h] using hn.ne'
      cases records with
      | nil => exact ⟨[], rfl, fun c hc => absurd hc List.not_mem_nil, by simp [stranded]⟩
      | cons record records =>
          rw [readsFrom_cons]
          by_cases hempty : decrypted = []
          · -- the next record is decrypted
            subst hempty
            have hrecord : record ≠ [] := hrecords record List.mem_cons_self
            obtain ⟨cs, hreads, hcs, hflatten⟩ := ih (s := ⟨records, record.drop n⟩)
              (by simp [size] at hrounds ⊢; omega)
              (fun r hr => hrecords r (List.mem_cons_of_mem record hr))
            refine ⟨record.take n :: cs, by rw [recv_next, hreads]; rfl,
              List.forall_mem_cons.mpr ⟨htake hrecord, hcs⟩, ?_⟩
            rw [List.flatten_cons, List.append_assoc, stranded_cons, hflatten,
              ← List.append_assoc, List.take_append_drop]
            rfl
          · -- the rest of an earlier one is handed out
            have hpos := List.length_pos_iff.mpr hempty
            obtain ⟨cs, hreads, hcs, hflatten⟩ := ih (s := ⟨record :: records, decrypted.drop n⟩)
              (by simp [size] at hrounds ⊢; omega) hrecords
            refine ⟨decrypted.take n :: cs, by rw [recv_decrypted _ hempty, hreads]; rfl,
              List.forall_mem_cons.mpr ⟨htake hempty, hcs⟩, ?_⟩
            rw [List.flatten_cons, List.append_assoc, stranded_cons, ← stranded_cons record records
              (decrypted.drop n), hflatten, ← List.append_assoc, List.take_append_drop]

end Reads

end TlsSocket

/-! ## receiving -/

/-- The callback gets no more than what is read. -/
theorem ResponseReceiverGeth.recvLoop_passed (h : ResponseTools) (cs : List Bytes) (p : h.Parser)
    (l : HttpResponseParserListener) :
    (recvLoop h (cs.map .data ++ [.notReady]) p l).passed <+: cs := by
  induction cs generalizing p l with
  | nil => cases hl : l.needMoreData <;> simp [recvLoop, hl]
  | cons c cs ih =>
      rw [List.map_cons, List.cons_append, recvLoop]
      split
      · simp only
        split
        · exact List.nil_prefix
        · cases h.feedData p c with
          | mk es p' =>
              cases p' with
              | none => exact List.nil_prefix
              | some p' => exact List.cons_prefix_cons.mpr ⟨rfl, ih p' _⟩
      · exact List.nil_prefix

/-- The callback gets the whole response, and `recv_response` returns. -/
def Delivered (h : ResponseTools) (s : ResponseStream) (n : Nat) (records : List Bytes) : Prop :=
  (ResponseReceiverGeth.recvResponse h (TlsSocket.reads n { records })).passed.flatten = s.wire ∧
    (ResponseReceiverGeth.recvResponse h (TlsSocket.reads n { records })).outcome = .returned

/-- **TLS connections strand the end of a long record.**  A response that comes in records is
received to its end exactly when the last record fits into the receive buffer. -/
theorem delivered_iff {h : ResponseTools} {s : ResponseStream} (hf : h.Follows s)
    (hnone : s.interims = []) {records : List Bytes} (hrecords : ∀ record ∈ records, record ≠ [])
    (hwire : records.flatten = s.wire) {n : Nat} (hn : 0 < n) :
    Delivered h s n records ↔ ∀ last, records.getLast? = some last → last.length ≤ n := by
  obtain ⟨cs, hreads, hcs, hflatten⟩ :=
    TlsSocket.readsFrom_eq hn (s := { records }) (Nat.lt_succ_self _) hrecords
  have hreads : TlsSocket.reads n { records } = cs.map .data ++ [.notReady] := hreads
  have hflatten : cs.flatten ++ TlsSocket.stranded n { records } = s.wire := by
    rw [hflatten, ← hwire]
    rfl
  have hstranded : TlsSocket.stranded n { records } = [] ↔
      ∀ last, records.getLast? = some last → last.length ≤ n := by
    cases hlast : records.getLast? with
    | none => simp [TlsSocket.stranded, hlast]
    | some last => simp [TlsSocket.stranded, hlast, List.drop_eq_nil_iff]
  rw [← hstranded]
  unfold Delivered
  rw [hreads]
  constructor
  · rintro ⟨hall, -⟩
    obtain ⟨more, hmore⟩ := ResponseReceiverGeth.recvLoop_passed h cs h.new {}
    have hpassed := congrArg (fun pieces => pieces.flatten.length) hmore
    have hlength := congrArg List.length (hflatten.trans hall.symm)
    simp only [List.flatten_append, List.length_append, ResponseReceiverGeth.recvResponse]
      at hpassed hlength
    exact List.length_eq_zero_iff.mp (by omega)
  · intro hempty
    rw [hempty, List.append_nil] at hflatten
    rw [receivesAll_of_no_interims hf hcs hflatten hnone [.notReady]]
    exact ⟨hflatten, rfl⟩

/-- The endpoint's answer in the next theorems. -/
def single : ResponseStream where
  interims := []
  final := noContent
  interim := by simp
  wellFormed := continued.wellFormed

/-- In two records, of which the first is longer than the buffer. -/
theorem delivered_iff_single :
    (Delivered (.scripted single) single 24 [single.wire.take 30, single.wire.drop 30] ↔
      ∀ last, [single.wire.take 30, single.wire.drop 30].getLast? = some last →
        last.length ≤ 24) ∧
      (single.wire.drop 30).length ≤ 24 ∧ 24 < (single.wire.take 30).length :=
  ⟨delivered_iff (ResponseTools.scripted_follows single) rfl (by decide) (by decide) (by decide),
    by decide⟩

/-- In one record that is longer than the buffer: the end of the response is in the socket, and
`select` says that there is nothing to read. -/
theorem not_delivered :
    ResponseReceiverGeth.recvResponse (.scripted single)
        (TlsSocket.reads 24 { records := [single.wire] }) =
      ⟨[single.wire.take 24], .connectionClosed, []⟩ ∧
      ¬ Delivered (.scripted single) single 24 [single.wire] := by
  have hreceipt : ResponseReceiverGeth.recvResponse (.scripted single)
      (TlsSocket.reads 24 { records := [single.wire] }) =
        ⟨[single.wire.take 24], .connectionClosed, []⟩ := by
    decide
  refine ⟨hreceipt, fun hdelivered => ?_⟩
  have houtcome := hdelivered.2
  rw [hreceipt] at houtcome
  cases houtcome

end Web3Proxy
