import EasyWebServer.Lib.Transition
import EasyWebServer.Post.Response

/-!
# The response buffer

`add_response` prints at `m_write_idx` with the room that is left, and moves the index only when
the whole text has fitted.  A text that is too long leaves its first bytes behind the index, where
the next call overwrites them.

`Responding` adds to the connection the texts of the calls that have succeeded.  `Buffered` is what
the buffer holds in every state of every sequence of calls, and `CallSafe` is what one call does:
`responseBuffered` has both.
-/

namespace EasyWebServer.Post

open CString HttpConn Transition

/-! ## Sequences of calls -/

/-- A connection, and the texts that have been added to its write buffer, in order. -/
structure Responding where
  conn : HttpConn
  added : List Bytes

/-- A call of `add_response` with the text that the format and its arguments stand for. -/
def addStep (s : Responding) (text : Bytes) : Option Responding :=
  let r := addResponse s.conn text
  some ⟨r.2, if r.1 then s.added ++ [text] else s.added⟩

/-- A connection before its first call. -/
def startResponding (c : HttpConn) : Responding := ⟨{ c with writeIdx := 0 }, []⟩

/-! ## The property -/

/-- The buffer holds the texts that have been added. -/
structure Buffered (s : Responding) : Prop where
  texts : s.conn.writeBuf.slice 0 s.conn.writeIdx = s.added.flatten
  writeIdx_le : s.conn.writeIdx ≤ WRITE_BUFFER_SIZE - 2

/-- The size that `vsnprintf` gets, an `int` expression. -/
def printSize (c : HttpConn) : Int := (WRITE_BUFFER_SIZE : Int) - 1 - c.writeIdx

/-- The bytes that `vsnprintf` stores. -/
def printed (c : HttpConn) (text : Bytes) : Bytes :=
  text.take ((printSize c).toNat - 1) ++ [NUL]

/-- What a call of `add_response` does. -/
structure CallSafe (s : Responding) (text : Bytes) : Prop where
  size_pos : 0 < printSize s.conn
  stores : (addResponse s.conn text).2.writeBuf =
    s.conn.writeBuf.write s.conn.writeIdx (printed s.conn text)
  stores_inside : s.conn.writeIdx + (printed s.conn text).length ≤ WRITE_BUFFER_SIZE
  succeeds : (addResponse s.conn text).1 = true ↔ (text.length : Int) < printSize s.conn
  /-- A call that fails keeps the index and the bytes before it. -/
  failed : (addResponse s.conn text).1 = false →
    (addResponse s.conn text).2.writeIdx = s.conn.writeIdx ∧
      (addResponse s.conn text).2.writeBuf.slice 0 s.conn.writeIdx =
        s.conn.writeBuf.slice 0 s.conn.writeIdx
  /-- Behind it, a text that fits is added. -/
  later : (addResponse s.conn text).1 = false →
    ∀ short : Bytes, (short.length : Int) < printSize s.conn →
      (addResponse (addResponse s.conn text).2 short).1 = true

/-! ## One call -/

/-- A text that does not fit: what is stored of it stays behind `m_write_idx`. -/
def HttpConn.cut (c : HttpConn) (text : Bytes) : HttpConn :=
  { c with writeBuf := c.writeBuf.write c.writeIdx (printed c text) }

@[simp] theorem cut_writeIdx (c : HttpConn) (text : Bytes) :
    (c.cut text).writeIdx = c.writeIdx := rfl

theorem addResponse_cut {c : HttpConn} {text : Bytes} (hidx : c.writeIdx ≤ WRITE_BUFFER_SIZE - 2)
    (h : WRITE_BUFFER_SIZE - 1 ≤ c.writeIdx + text.length) :
    addResponse c text = (false, c.cut text) := by
  have hsize : WRITE_BUFFER_SIZE - 1 - c.writeIdx ≠ 0 := by
    simp only [WRITE_BUFFER_SIZE] at hidx ⊢
    omega
  have hprint : (printSize c).toNat = WRITE_BUFFER_SIZE - 1 - c.writeIdx := by
    simp only [printSize, WRITE_BUFFER_SIZE]
    omega
  rw [addResponse, if_neg (by omega), if_pos (by omega)]
  simp only [vsnprintf, if_neg hsize, HttpConn.cut, printed, hprint]

/-- Stores at or behind an index keep the bytes before it. -/
theorem slice_write_before {cap : Nat} (buf : CharBuf cap) {i : Nat} (bs : Bytes) (hi : i ≤ cap) :
    (buf.write i bs).slice 0 i = buf.slice 0 i := by
  refine CharBuf.slice_congr (by omega) ?_
  intro k _ hk
  exact CharBuf.get_write_lt buf bs (by omega)

theorem slice_put_append {c : HttpConn} (text : Bytes)
    (h : c.writeIdx + text.length < WRITE_BUFFER_SIZE) :
    (c.put text).writeBuf.slice 0 (c.put text).writeIdx =
      c.writeBuf.slice 0 c.writeIdx ++ text := by
  rw [put_writeIdx, CharBuf.slice_append, Nat.zero_add, slice_put_writeIdx text h]
  congr 1
  exact slice_write_before c.writeBuf _ (by omega)

theorem printed_fits {c : HttpConn} {text : Bytes}
    (h : c.writeIdx + text.length < WRITE_BUFFER_SIZE - 1) : printed c text = text ++ [NUL] := by
  rw [printed, List.take_of_length_le]
  simp only [printSize, WRITE_BUFFER_SIZE] at h ⊢
  omega

theorem Buffered.addStep {s s' : Responding} {text : Bytes} (h : Buffered s)
    (hstep : addStep s text = some s') : Buffered s' := by
  have hidx := h.writeIdx_le
  cases hstep
  rcases Nat.lt_or_ge (s.conn.writeIdx + text.length) (WRITE_BUFFER_SIZE - 1) with hfit | hfull
  · rw [addResponse_put hfit]
    constructor
    · rw [if_pos rfl, List.flatten_append, List.flatten_singleton, ← h.texts]
      exact slice_put_append text (by omega)
    · rw [put_writeIdx]
      omega
  · rw [addResponse_cut hidx hfull]
    constructor
    · rw [if_neg Bool.false_ne_true, ← h.texts]
      exact slice_write_before s.conn.writeBuf _
        (Nat.le_trans hidx (Nat.sub_le WRITE_BUFFER_SIZE 2))
    · exact hidx

/-- The stores of `vsnprintf` end inside the buffer, for a text of any length. -/
theorem printed_inside {c : HttpConn} (hidx : c.writeIdx ≤ WRITE_BUFFER_SIZE - 2) (text : Bytes) :
    c.writeIdx + (printed c text).length ≤ WRITE_BUFFER_SIZE := by
  have htake : (text.take ((printSize c).toNat - 1)).length ≤ (printSize c).toNat - 1 :=
    List.length_take_le _ _
  rw [printed, List.length_append, List.length_singleton]
  simp only [printSize, WRITE_BUFFER_SIZE] at htake hidx ⊢
  omega

theorem callSafe_fits {s : Responding} {text : Bytes} (h : Buffered s)
    (hfit : s.conn.writeIdx + text.length < WRITE_BUFFER_SIZE - 1) : CallSafe s text := by
  have hput := addResponse_put hfit
  have htrue : (addResponse s.conn text).1 = true := by rw [hput]
  have hlt : (text.length : Int) < printSize s.conn := by
    simp only [printSize, WRITE_BUFFER_SIZE] at hfit ⊢
    omega
  have hnot : ¬ (addResponse s.conn text).1 = false := by
    rw [htrue]
    decide
  refine ⟨by omega, ?_, printed_inside h.writeIdx_le text, iff_of_true htrue hlt,
    fun hfalse => absurd hfalse hnot, fun hfalse => absurd hfalse hnot⟩
  rw [hput, printed_fits hfit]
  rfl

theorem callSafe_full {s : Responding} {text : Bytes} (h : Buffered s)
    (hfull : WRITE_BUFFER_SIZE - 1 ≤ s.conn.writeIdx + text.length) : CallSafe s text := by
  have hidx := h.writeIdx_le
  have hcut := addResponse_cut hidx hfull
  have hsize : 0 < printSize s.conn := by
    simp only [printSize, WRITE_BUFFER_SIZE] at hidx ⊢
    omega
  have hge : ¬ (text.length : Int) < printSize s.conn := by
    simp only [printSize, WRITE_BUFFER_SIZE] at hfull hidx ⊢
    omega
  refine ⟨hsize, ?_, printed_inside hidx text, ?_, ?_, ?_⟩
  · rw [hcut]
    rfl
  · rw [hcut]
    exact iff_of_false Bool.false_ne_true hge
  · intro _
    rw [hcut]
    exact ⟨rfl, slice_write_before _ _ (Nat.le_trans hidx (Nat.sub_le WRITE_BUFFER_SIZE 2))⟩
  · intro _ short hshort
    rw [hcut, addResponse_put]
    rw [cut_writeIdx]
    simp only [printSize, WRITE_BUFFER_SIZE] at hshort ⊢
    omega

theorem Buffered.callSafe {s : Responding} (h : Buffered s) (text : Bytes) :
    CallSafe s text := by
  rcases Nat.lt_or_ge (s.conn.writeIdx + text.length) (WRITE_BUFFER_SIZE - 1) with hfit | hfull
  · exact callSafe_fits h hfit
  · exact callSafe_full h hfull

/-! ## All calls -/

theorem buffered_start (c : HttpConn) : Buffered (startResponding c) := by
  refine ⟨?_, Nat.zero_le _⟩
  show (c.writeBuf.slice 0 0) = []
  rw [CharBuf.slice, List.take_zero]

/-- However long the texts are, and in whatever order they succeed and fail: the buffer holds
those that have succeeded, and no call stores outside it. -/
theorem responseBuffered (c : HttpConn) (texts : List Bytes) :
    Always addStep Buffered (startResponding c) texts ∧
      AllSteps addStep CallSafe (startResponding c) texts := by
  have hstep : ∀ s text s', Buffered s → addStep s text = some s' → Buffered s' :=
    fun s text s' h hs => h.addStep hs
  exact ⟨always_of_step Buffered hstep (fun s h => h) (buffered_start c) texts,
    allSteps_of_step Buffered hstep (fun s text h => h.callSafe text) (buffered_start c) texts⟩

end EasyWebServer.Post
