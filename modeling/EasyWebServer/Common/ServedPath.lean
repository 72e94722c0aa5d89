import EasyWebServer.Common.Conn
import EasyWebServer.Lib.CharBuf
import EasyWebServer.Lib.LexicalPath

/-!
# The path of a request

Both servers append `m_url` to their document root.  `Inside` says that a path, resolved
lexically, lies below a root directory.

`UrlPlaced` is what both parsers keep: when `do_request` is called, `m_url` points at the `/` that
the request line was accepted with, or at a NUL that a later store has put there.
-/

namespace EasyWebServer

open CString CharBuf LexicalPath

namespace Common

/-- The byte `'.'`. -/
def dot : UInt8 := 46

/-- The path, resolved lexically, lies below the root. -/
def Inside (root path : Bytes) : Prop := Below (resolve slash dot root) (resolve slash dot path)

instance (root path : Bytes) : Decidable (Inside root path) :=
  inferInstanceAs (Decidable (Below _ _))

variable {cap : Nat}

/-! ## The bytes behind the received ones -/

/-- The buffer is zero behind the received bytes. -/
def ZeroBehind (readIdx : Nat) (buf : CharBuf cap) : Prop := ∀ j, readIdx ≤ j → buf.get j = NUL

namespace ZeroBehind

variable {readIdx i : Nat} {buf : CharBuf cap}

theorem nulStores {buf' : CharBuf cap} (h : ZeroBehind readIdx buf) (hbuf : NulStores buf buf') :
    ZeroBehind readIdx buf' := by
  intro j hj
  rcases hbuf j with hkept | hnul
  · exact hkept.trans (h j hj)
  · exact hnul

/-- A `/` has been received. -/
theorem lt_of_slash (h : ZeroBehind readIdx buf) (hi : buf.get i = slash) : i < readIdx := by
  by_contra hge
  have hnul := h i (by omega)
  rw [hi] at hnul
  exact absurd hnul (by decide)

end ZeroBehind

/-! ## Where m_url points -/

/-- Before the request line is parsed, the buffer is zero behind the received bytes.
Afterwards `m_url` points at a received byte, which is a `/` or was overwritten with
NUL. -/
structure UrlPlaced (state : CheckState) (readIdx : Nat) (url : Option Nat)
    (buf : CharBuf cap) : Prop where
  before : state = .requestLine → ZeroBehind readIdx buf
  after : state ≠ .requestLine →
    ∃ i, url = some i ∧ i < readIdx ∧ (buf.get i = slash ∨ buf.get i = NUL)

namespace UrlPlaced

variable {state : CheckState} {readIdx : Nat} {url : Option Nat} {buf : CharBuf cap}

theorem init : UrlPlaced .requestLine 0 none (CharBuf.zero cap) :=
  ⟨fun _ j _ => CharBuf.get_zero j, fun h => absurd rfl h⟩

theorem nulStores {buf' : CharBuf cap} (h : UrlPlaced state readIdx url buf)
    (hbuf : NulStores buf buf') : UrlPlaced state readIdx url buf' := by
  refine ⟨fun hstate => (h.before hstate).nulStores hbuf, fun hstate => ?_⟩
  obtain ⟨i, hurl, hi, hbyte⟩ := h.after hstate
  refine ⟨i, hurl, hi, ?_⟩
  rcases hbuf i with hkept | hnul
  · rw [hkept]
    exact hbyte
  · exact Or.inr hnul

theorem recv (h : UrlPlaced state readIdx url buf) (d : Bytes) :
    UrlPlaced state (readIdx + d.length) url (buf.write readIdx d) := by
  constructor
  · intro hstate j hj
    rw [CharBuf.get_write, if_neg (by omega)]
    exact h.before hstate j (by omega)
  · intro hstate
    obtain ⟨i, hurl, hi, hbyte⟩ := h.after hstate
    refine ⟨i, hurl, by omega, ?_⟩
    rw [CharBuf.get_write_lt _ _ hi]
    exact hbyte

/-- The state in which `parse_headers` leaves the connection, `m_url` being where it was. -/
theorem headers {state' : CheckState} (h : UrlPlaced state readIdx url buf)
    (hstate : state = .header) (hnext : state' = state ∨ state' = .content) :
    UrlPlaced state' readIdx url buf := by
  have hne : state ≠ .requestLine := by
    rw [hstate]
    decide
  have hne' : state' ≠ .requestLine := by
    rcases hnext with rfl | rfl
    · exact hne
    · decide
  exact ⟨fun h' => absurd h' hne', fun _ => h.after hne⟩

/-- The path of `m_url` at the call of `do_request` is empty or starts with `/`. -/
theorem cstr_url (h : UrlPlaced state readIdx url buf) (hstate : state ≠ .requestLine) {u : Nat}
    (hu : url = some u) :
    cstr (buf.view u) = [] ∨ ∃ rest, cstr (buf.view u) = slash :: rest := by
  obtain ⟨i, hi, -, hbyte⟩ := h.after hstate
  cases hu.symm.trans hi
  rcases hbyte with hslash | hnul
  · have hcons := CharBuf.cstr_view_cons buf (i := u) (by rw [hslash]; decide)
    rw [hslash] at hcons
    exact Or.inr ⟨_, hcons⟩
  · exact Or.inl (CharBuf.cstr_view_nil buf hnul)

end UrlPlaced

end Common

end EasyWebServer
