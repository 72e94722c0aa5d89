import Mathlib.Data.List.Basic
import Mathlib.Logic.Function.Basic

/-!
# The self-pipe

A signal handler writes the signal into a pipe, and an event loop reads the pipe after its
multiplexer has reported it.  Three things lie between a signal and the loop:

* the signals that are raised and whose handler has not run: a signal that is raised twice
  before that is raised once (`raised`);
* the bytes in the pipe, which has a capacity: the handler does not wait for room;
* the report: the read end is edge-triggered, so it is reported once for all that has
  arrived since its last report (`edge`).

`OnItsWay` is a signal that the loop will read, and `Comes` is a pipe that the loop will
read.  The argument `reported` says whether the loop has a report that it has not handled.
-/

namespace EasyWebServer

/-- What lies between the signals and the loop. -/
structure SelfPipe (σ : Type*) where
  raised : σ → Bool
  bytes : List σ
  edge : Bool

namespace SelfPipe

variable {σ : Type*}

/-- A pipe before the first signal. -/
def quiet : SelfPipe σ := ⟨fun _ => false, [], false⟩

/-- A signal is raised. -/
def raise [DecidableEq σ] (p : SelfPipe σ) (sig : σ) : SelfPipe σ :=
  { p with raised := Function.update p.raised sig true }

/-- The handler of a signal runs, which sends a byte when there is room. -/
def handle [DecidableEq σ] (capacity : Nat) (p : SelfPipe σ) (sig : σ) : SelfPipe σ :=
  if p.bytes.length < capacity then
    { raised := Function.update p.raised sig false, bytes := p.bytes ++ [sig], edge := true }
  else { p with raised := Function.update p.raised sig false }

/-- The read end is reported. -/
def report (p : SelfPipe σ) : SelfPipe σ := { p with edge := false }

/-- The loop has read a number of bytes. -/
def drop (p : SelfPipe σ) (limit : Nat) : SelfPipe σ := { p with bytes := p.bytes.drop limit }

/-- The loop has something to read, and reads it. -/
def Comes (p : SelfPipe σ) (reported : Prop) : Prop := p.bytes ≠ [] ∧ (p.edge = true ∨ reported)

/-- The loop will read the signal. -/
def OnItsWay (p : SelfPipe σ) (reported : Prop) (sig : σ) : Prop :=
  p.raised sig = true ∨ sig ∈ p.bytes ∧ (p.edge = true ∨ reported)

/-- A pipe that is full is read, and one that is reported is not empty. -/
structure Watched (capacity : Nat) (p : SelfPipe σ) (reported : Prop) : Prop where
  fits : p.bytes.length ≤ capacity
  full : p.bytes.length = capacity → p.edge = true ∨ reported
  nonempty : reported → p.bytes ≠ []

variable {p : SelfPipe σ} {reported : Prop} {capacity : Nat}

/-! ## Reports and reads -/

/-- A report that comes when something has arrived. -/
theorem OnItsWay.report {s : σ} (h : p.OnItsWay False s) (hedge : p.edge = true → reported) :
    p.report.OnItsWay reported s :=
  h.imp_right (fun hbytes => ⟨hbytes.1, .inr (hedge (hbytes.2.resolve_right id))⟩)

theorem OnItsWay.mono {s : σ} {reported' : Prop} (h : p.OnItsWay reported s)
    (hmono : reported → reported') : p.OnItsWay reported' s :=
  h.imp_right (fun hbytes => ⟨hbytes.1, hbytes.2.imp_right hmono⟩)

theorem Comes.mono {reported' : Prop} (h : p.Comes reported) (hmono : reported → reported') :
    p.Comes reported' := ⟨h.1, h.2.imp_right hmono⟩

/-- A read that takes all that is in the pipe reads the signal, or it is still raised. -/
theorem OnItsWay.read {s : σ} {limit : Nat} (h : p.OnItsWay reported s)
    (hlimit : p.bytes.length ≤ limit) :
    p.raised s = true ∨ s ∈ p.bytes.take limit := by
  rw [List.take_of_length_le hlimit]
  exact h.imp_right And.left

theorem watched_quiet (h : 0 < capacity) : Watched capacity (quiet : SelfPipe σ) False where
  fits := Nat.zero_le capacity
  full := by
    intro hzero
    change 0 = capacity at hzero
    omega
  nonempty := False.elim

/-- A report finds something in the pipe. -/
theorem Watched.report (h : Watched capacity p reported) (hbytes : p.bytes ≠ []) :
    Watched capacity p.report True := ⟨h.fits, fun _ => .inr trivial, fun _ => hbytes⟩

/-- What the loop reads is not empty. -/
theorem Watched.take_ne_nil {limit : Nat} (h : Watched capacity p reported) (hrep : reported)
    (hlimit : 0 < limit) : p.bytes.take limit ≠ [] := by
  intro hnil
  rcases List.take_eq_nil_iff.mp hnil with hzero | hbytes
  · omega
  · exact h.nonempty hrep hbytes

/-- A read leaves room. -/
theorem Watched.drop {limit : Nat} (h : Watched capacity p reported) (hrep : reported)
    (hlimit : 0 < limit) : Watched capacity (p.drop limit) False := by
  have hpos := List.length_pos_of_ne_nil (h.nonempty hrep)
  have hfits := h.fits
  have hlength : (p.bytes.drop limit).length = p.bytes.length - limit := List.length_drop
  refine ⟨?_, fun hfull => ?_, False.elim⟩
  · show (p.bytes.drop limit).length ≤ capacity
    omega
  · change (p.bytes.drop limit).length = capacity at hfull
    omega

/-! ## Signals and their handlers -/

section

variable [DecidableEq σ]

theorem raised_raise (p : SelfPipe σ) (sig : σ) : (p.raise sig).raised sig = true := by
  show Function.update p.raised sig true sig = true
  exact Function.update_self sig true p.raised

theorem raised_raise_mono {s : σ} (h : p.raised s = true) (sig : σ) :
    (p.raise sig).raised s = true := by
  by_cases hs : s = sig
  · rw [hs]
    exact raised_raise p sig
  · exact (Function.update_of_ne hs true p.raised).trans h

theorem OnItsWay.raise {s : σ} (h : p.OnItsWay reported s) (sig : σ) :
    (p.raise sig).OnItsWay reported s := h.imp_left (fun hs => raised_raise_mono hs sig)

/-- A handler that finds room loses no signal. -/
theorem OnItsWay.handle {s : σ} (h : p.OnItsWay reported s) (hroom : p.bytes.length < capacity)
    (sig : σ) : (p.handle capacity sig).OnItsWay reported s := by
  rw [SelfPipe.handle, if_pos hroom]
  by_cases hs : s = sig
  · exact .inr ⟨List.mem_append_right p.bytes (List.mem_singleton.mpr hs), .inl rfl⟩
  · rcases h with hraised | ⟨hmem, -⟩
    · exact .inl ((Function.update_of_ne hs false p.raised).trans hraised)
    · exact .inr ⟨List.mem_append_left [sig] hmem, .inl rfl⟩

theorem Watched.raise (h : Watched capacity p reported) (sig : σ) :
    Watched capacity (p.raise sig) reported := ⟨h.fits, h.full, h.nonempty⟩

theorem Watched.handle (h : Watched capacity p reported) (sig : σ) :
    Watched capacity (p.handle capacity sig) reported := by
  rw [SelfPipe.handle]
  split
  · rename_i hroom
    refine ⟨?_, fun _ => .inl rfl, fun _ => by simp⟩
    show (p.bytes ++ [sig]).length ≤ capacity
    rw [List.length_append, List.length_singleton]
    exact hroom
  · exact ⟨h.fits, h.full, h.nonempty⟩

/-- A handler that finds the pipe full has nothing to add: the pipe will be read. -/
theorem Watched.comes_handle (h : Watched capacity p reported) (hcap : 0 < capacity) (sig : σ) :
    (p.handle capacity sig).Comes reported := by
  rw [SelfPipe.handle]
  split
  · exact ⟨by simp, .inl rfl⟩
  · have hfull : p.bytes.length = capacity := by
      have hfits := h.fits
      omega
    refine ⟨fun hnil => ?_, h.full hfull⟩
    rw [hnil, List.length_nil] at hfull
    omega

end

end SelfPipe

end EasyWebServer
