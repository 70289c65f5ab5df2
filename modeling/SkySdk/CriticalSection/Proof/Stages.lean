import SkySdk.CriticalSection.World

/-!
# The stages of a call

How far a call of `sky_critical_section.c` has come (`Stage`), the requests it may make in each
stage (`may`), and what a reply takes it to (`next`). The programs keep to them (`call_safe`).
-/

set_option autoImplicit false

namespace Sky.CriticalSection

open Base

variable {ι : Type} {p : Addr}

inductive Stage (ι : Type)
  | idle
  /-- The call alone knows the block, which is as said. -/
  | own (p : Addr) (b : Block ι)
  /-- The mutex has not been asked for, or was not had. -/
  | asking (p : Addr)
  | got (p : Addr)
  | leaving (p : Addr)
  | left (p : Addr)

/-- A struct that is not in use. -/
def readyBlock : Block ι := { header := newCriticalSection, attr := some true, mutex := some .free }

def firstStage (c : Call) : Stage ι :=
  if c.handle = 0 then .idle
  else match c with
    | .create => .idle
    | .destroy p => .own p readyBlock
    | .enter p | .tryEnter p => .asking p
    | .leave p => .leaving p

theorem firstStage_null {c : Call} (h : c.handle = 0) : (firstStage c : Stage ι) = .idle :=
  if_pos h

/-- The requests of a call in a stage. -/
def may (g : Stage ι) : Request → Prop
  | .alloc => g = .idle
  | .free p | .store p _ | .attrInit p => ∃ b, g = .own p b
  | .attrSettype p | .attrDestroy p => ∃ b, g = .own p b ∧ b.attr ≠ none
  | .mutexInit p => ∃ b, g = .own p b ∧ b.attr = some true
  | .mutexDestroy p => ∃ b, g = .own p b ∧ b.mutex ≠ none
  | .mutexLock p | .mutexTrylock p => g = .asking p
  | .mutexUnlock p => g = .leaving p
  | .validate p =>
    p = 0 ∧ g = .idle ∨ g = .own p readyBlock ∨ g = .asking p ∨ g = .leaving p

variable [DecidableEq ι]

/-- A request that changes the block of the call. -/
def Changes (g : Stage ι) (p : Addr) (f : Block ι → Block ι) (g' : Stage ι) : Prop :=
  ∃ b, g = .own p b ∧ g' = .own p (f b)

/-- The stage after a reply. -/
def next (g : Stage ι) : (o : Request) → o.Reply → Stage ι → Prop
  | .alloc, p => fun g' => g' = if p = 0 then .idle else .own p zeroBlock
  | .free _, _ => fun g' => g' = .idle
  | .store p cs, _ => Changes g p fun b => { b with header := cs }
  | .attrInit p, _ => Changes g p fun b => { b with attr := some false }
  | .attrSettype p, _ => Changes g p fun b => { b with attr := some true }
  | .mutexInit p, _ => Changes g p fun b => { b with mutex := some .free }
  | .mutexDestroy p, _ => Changes g p fun b =>
      { b with mutex := if b.mutex = some .free then none else b.mutex }
  | .attrDestroy p, _ => Changes g p fun b => { b with attr := none }
  | .mutexLock p, _ => fun g' => g' = .got p
  | .mutexTrylock p, rc => fun g' => g' = if rc = 0 then .got p else .asking p
  | .mutexUnlock p, _ => fun g' => g' = .left p
  | .validate _, _ => fun g' => g' = g

/-- The stage of a call that returns. -/
def post (c : Call) (g : Stage ι) (r : Resp) : Prop :=
  match c, r with
  | .create, .handle p => g = if p = 0 then .idle else .own p readyBlock
  | .enter p, _ => g = if p = 0 then .idle else .got p
  | .tryEnter p, .entered r =>
    g = if p = 0 then .idle else if r then .got p else .asking p
  | .leave p, _ => g = if p = 0 then .idle else .left p
  | .destroy _, _ => g = .idle
  | _, _ => False

/-! ## The programs keep to their stages -/

abbrev SafeIn {α : Type} (Q : Stage ι → α → Prop) (g : Stage ι) (x : CsM α) : Prop :=
  x.Safe may next Q g

section
variable {α : Type} {Q : Stage ι → α → Prop} {g : Stage ι}

theorem safe_request {o : Request} {f : o.Reply → CsM α} (ho : may g o)
    (hf : ∀ r g', next g o r g' → SafeIn Q g' (f r)) : SafeIn Q g (request o >>= f) := ⟨ho, hf⟩

theorem safe_pure {a : α} (h : Q g a) : SafeIn Q g (pure a) := h

theorem safe_change {b : Block ι} {o : Request} {f : o.Reply → CsM α} {u : Block ι → Block ι}
    (ho : may (.own p b) o) (hn : ∀ r g', next (.own p b) o r g' → Changes (.own p b) p u g')
    (hf : ∀ r, SafeIn Q (.own p (u b)) (f r)) : SafeIn Q (.own p b) (request o >>= f) := by
  refine safe_request ho ?_
  intro r g' hg
  obtain ⟨b', hb, rfl⟩ := hn r g' hg
  cases hb
  exact hf r

theorem safe_validate {f : Unit → CsM α}
    (ho : p = 0 ∧ g = .idle ∨ g = .own p readyBlock ∨ g = .asking p ∨ g = .leaving p)
    (hf : SafeIn Q g (f ())) : SafeIn Q g (request (.validate p) >>= f) := by
  refine safe_request ho ?_
  intro r g' hg
  rw [show g' = g from hg]
  exact hf

end

theorem create_safe : SafeIn (fun g p => g = if p = 0 then .idle else .own p readyBlock)
    (.idle : Stage ι) skyCriticalSectionCreate := by
  refine safe_request rfl ?_
  intro p g hg
  by_cases hp : p = 0
  · rw [if_pos hp]
    exact safe_pure (Eq.trans hg (if_pos hp))
  · have hown : g = .own p zeroBlock := Eq.trans hg (if_neg hp)
    subst hown
    rw [if_neg hp]
    refine safe_change ⟨_, rfl⟩ (fun _ _ h => h) fun _ => ?_
    refine safe_change ⟨_, rfl⟩ (fun _ _ h => h) fun _ => ?_
    refine safe_change ⟨_, rfl, Option.some_ne_none false⟩ (fun _ _ h => h) fun _ => ?_
    refine safe_change ⟨_, rfl, rfl⟩ (fun _ _ h => h) fun _ => ?_
    exact safe_pure (if_neg hp).symm

theorem destroy_safe (p : Addr) : SafeIn (fun g _ => g = .idle)
    (firstStage (.destroy p) : Stage ι) (skyCriticalSectionDestroy p) := by
  by_cases hp : p = 0
  · rw [firstStage_null (show Call.handle (.destroy p) = 0 from hp)]
    refine safe_validate (.inl ⟨hp, rfl⟩) ?_
    rw [if_neg (not_not_intro hp)]
    exact safe_pure rfl
  · rw [firstStage, if_neg (show Call.handle (.destroy p) ≠ 0 from hp)]
    refine safe_validate (.inr (.inl rfl)) ?_
    rw [if_pos hp]
    refine safe_change ⟨_, rfl, Option.some_ne_none _⟩ (fun _ _ h => h) fun _ => ?_
    refine safe_change ⟨_, rfl, Option.some_ne_none true⟩ (fun _ _ h => h) fun _ => ?_
    exact safe_request ⟨_, rfl⟩ fun _ _ h => h

theorem enter_safe (p : Addr) : SafeIn (fun g _ => g = if p = 0 then .idle else .got p)
    (firstStage (.enter p) : Stage ι) (skyCriticalSectionEnter p) := by
  by_cases hp : p = 0
  · rw [firstStage_null (show Call.handle (.enter p) = 0 from hp)]
    refine safe_validate (.inl ⟨hp, rfl⟩) ?_
    rw [if_neg (not_not_intro hp)]
    exact safe_pure (if_pos hp).symm
  · rw [firstStage, if_neg (show Call.handle (.enter p) ≠ 0 from hp)]
    refine safe_validate (.inr (.inr (.inl rfl))) ?_
    rw [if_pos hp]
    exact safe_request rfl fun _ _ h => safe_pure (Eq.trans h (if_neg hp).symm)

theorem leave_safe (p : Addr) : SafeIn (fun g _ => g = if p = 0 then .idle else .left p)
    (firstStage (.leave p) : Stage ι) (skyCriticalSectionLeave p) := by
  by_cases hp : p = 0
  · rw [firstStage_null (show Call.handle (.leave p) = 0 from hp)]
    refine safe_validate (.inl ⟨hp, rfl⟩) ?_
    rw [if_neg (not_not_intro hp)]
    exact safe_pure (if_pos hp).symm
  · rw [firstStage, if_neg (show Call.handle (.leave p) ≠ 0 from hp)]
    refine safe_validate (.inr (.inr (.inr rfl))) ?_
    rw [if_pos hp]
    exact safe_request rfl fun _ _ h => Eq.trans h (if_neg hp).symm

theorem try_safe (p : Addr) :
    SafeIn (fun g r => g = if p = 0 then .idle else if r then .got p else .asking p)
      (firstStage (.tryEnter p) : Stage ι) (skyCriticalSectionTry p) := by
  by_cases hp : p = 0
  · rw [firstStage_null (show Call.handle (.tryEnter p) = 0 from hp)]
    refine safe_validate (.inl ⟨hp, rfl⟩) ?_
    rw [if_neg (not_not_intro hp)]
    exact safe_pure (if_pos hp).symm
  · rw [firstStage, if_neg (show Call.handle (.tryEnter p) ≠ 0 from hp)]
    refine safe_validate (.inr (.inr (.inl rfl))) ?_
    rw [if_pos hp]
    refine safe_request rfl ?_
    intro rc g hg
    by_cases hrc : rc = 0
    · rw [if_pos hrc]
      refine safe_pure ?_
      rw [if_neg hp]
      exact Eq.trans hg (if_pos hrc)
    · rw [if_neg hrc]
      refine safe_pure ?_
      rw [if_neg hp]
      exact Eq.trans hg (if_neg hrc)

theorem call_safe (c : Call) : SafeIn (post c) (firstStage c : Stage ι) (call c) := by
  cases c with
  | create => exact Proc.Safe.bind (fun _ _ h => h) create_safe
  | destroy p => exact Proc.Safe.bind (fun _ _ h => h) (destroy_safe p)
  | enter p => exact Proc.Safe.bind (fun _ _ h => h) (enter_safe p)
  | leave p => exact Proc.Safe.bind (fun _ _ h => h) (leave_safe p)
  | tryEnter p => exact Proc.Safe.bind (fun _ _ h => h) (try_safe p)

end Sky.CriticalSection
