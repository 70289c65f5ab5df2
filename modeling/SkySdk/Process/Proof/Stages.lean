import SkySdk.Process.World

/-!
# The stages of a call

How far a call of `sky_process.c` has come, the requests it may make in each stage (`may`), and what
a reply takes it to (`next`). The programs keep to them (`call_safe`).
-/

set_option autoImplicit false

namespace Sky.Process

open Base

variable {I : Type} (M : Machine I)

inductive Stage (I : Type)
  | idle
  | named (path : List UInt8)
  | opened (file : Nat) (inode : I)
  | locked (file : Nat) (inode : I)

def may (g : Stage I) : Request → Prop
  | .print name => g = .idle ∧ Takes name
  | .openFile path => g = .named path
  | .flock file => ∃ inode, g = .opened file inode
  | .daemon | .setBackground | .isBackground | .exit => g = .idle

def next (g : Stage I) : (o : Request) → o.Reply → Stage I → Prop
  | .print name, path => fun g' => path = pidFileName M.pathMax name ∧ g' = .named path
  | .openFile path, file => fun g' =>
    g' = match file with
      | none => .idle
      | some file => .opened file (M.inodeOf path)
  | .flock file, ret => fun g' =>
    ∃ inode, g = .opened file inode ∧ g' = if ret = 0 then .locked file inode else .idle
  | _, _ => fun g' => g' = .idle

/-- The stage of a call that returns. -/
def post (c : Call) (g : Stage I) (r : Bool) : Prop :=
  match c with
  | .isFirstInstance name =>
    if r then ∃ file, g = .locked file (M.pidFile name) else g = .idle
  | _ => g = .idle

section
variable {M} {α : Type} {Q : Stage I → α → Prop} {g : Stage I}

theorem safe_request {o : Request} {f : o.Reply → ProcessM α} (ho : may g o)
    (hf : ∀ r g', next M g o r g' → (f r).Safe may (next M) Q g') :
    (request o >>= f).Safe may (next M) Q g := ⟨ho, hf⟩

theorem safe_pure {a : α} (h : Q g a) : (pure a : ProcessM α).Safe may (next M) Q g := h

end

theorem firstInstance_safe {name : CStr} (h : Takes name) :
    (skyProcessIsFirstInstance name).Safe may (next M) (post M (.isFirstInstance name))
      .idle := by
  refine safe_request ⟨rfl, h⟩ ?_
  intro path g hg
  obtain ⟨rfl, rfl⟩ := hg
  refine safe_request rfl ?_
  intro file g hg
  cases file with
  | none => exact hg
  | some file =>
    obtain rfl : g = .opened file (M.pidFile name) := hg
    refine safe_request ⟨_, rfl⟩ ?_
    intro ret g hg
    obtain ⟨inode, hinode, rfl⟩ := hg
    cases hinode
    by_cases hret : ret = 0
    · rw [if_pos hret, if_pos hret]
      exact safe_pure ⟨file, rfl⟩
    · rw [if_neg hret, if_neg hret]
      exact safe_pure rfl

theorem call_safe {κ : Type} {k : κ} {c : Call} {w : World κ I} (h : MayCall k c w) :
    (call c).Safe may (next M) (post M c) .idle := by
  cases c with
  | isFirstInstance name => exact firstInstance_safe M h.2
  | setRunInBackground =>
    refine safe_request rfl ?_
    intro ret g hg
    obtain rfl : g = .idle := hg
    by_cases hret : ret = 0
    · rw [if_neg (not_not_intro hret)]
      exact safe_request rfl fun _ _ hg => safe_pure hg
    · rw [if_pos hret]
      exact safe_pure rfl
  | isRunInBackground => exact ⟨rfl, fun _ _ hg => hg⟩
  | exit => exact ⟨rfl, fun r => nomatch r⟩

end Sky.Process
