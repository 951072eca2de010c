import Mathlib

set_option autoImplicit false

namespace RedisCore.Ae

structure Mask where
  readable : Bool
  writable : Bool
  barrier : Bool
  deriving DecidableEq

def Mask.none : Mask := ⟨false, false, false⟩

def aeCreateFileEvent (fe mask : Mask) : Mask :=
  ⟨fe.readable || mask.readable, fe.writable || mask.writable, fe.barrier || mask.barrier⟩

-- AE_BARRIER goes with AE_WRITABLE.
def aeDeleteFileEvent (fe mask : Mask) : Mask :=
  ⟨fe.readable && !mask.readable, fe.writable && !mask.writable, fe.barrier && !(mask.barrier || mask.writable)⟩

section

variable {σ : Type} (mask : σ → Mask) (read write : σ → σ) (readable writable : Bool) (s : σ)

-- One descriptor that has fired. Its two handlers are different functions.
def readBefore : σ := if !(mask s).barrier && (mask s).readable && readable then read s else s

def writeAfter : σ :=
  let served := readBefore mask read readable s
  if (mask served).writable && writable then write served else served

def serve : σ :=
  let written := writeAfter mask read write readable writable s
  if (mask s).barrier && (mask written).readable && readable then read written else written

-- The state in which the write handler is called, if it is.
def writesFrom : Option σ :=
  let served := readBefore mask read readable s
  if (mask served).writable && writable then some served else none

variable {mask read write readable writable s}

theorem readBefore_preserves {P : σ → Prop} (reads : ∀ s, P s → P (read s)) (start : P s) : P (readBefore mask read readable s) := by
  unfold readBefore
  split_ifs
  · exact reads s start
  · exact start

theorem readBefore_barred (barred : (mask s).barrier = true) : readBefore mask read readable s = s := by
  simp only [readBefore, barred, Bool.not_true, Bool.false_and, Bool.false_eq_true, if_false]

theorem writesFrom_some {t : σ} (writes : writesFrom mask read readable writable s = some t) :
    t = readBefore mask read readable s ∧ (mask t).writable = true := by
  unfold writesFrom at writes
  dsimp only at writes
  split_ifs at writes with fires
  cases writes
  exact ⟨rfl, ((Bool.and_eq_true _ _).mp fires).1⟩

theorem serve_preserves {P : σ → Prop} (reads : ∀ s, P s → P (read s))
    (writes : ∀ t, writesFrom mask read readable writable s = some t → P t → P (write t)) (start : P s) :
    P (serve mask read write readable writable s) := by
  have served : P (readBefore mask read readable s) := readBefore_preserves reads start
  have written : P (writeAfter mask read write readable writable s) := by
    unfold writeAfter
    dsimp only
    split_ifs with fires
    · exact writes _ (by simp only [writesFrom, if_pos fires]) served
    · exact served
  unfold serve
  dsimp only
  split_ifs
  · exact reads _ written
  · exact written

end

end RedisCore.Ae
