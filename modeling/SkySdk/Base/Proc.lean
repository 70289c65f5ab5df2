import SkySdk.Base.Prog

/-!
# Programs that make requests

`Proc O R α` is a program that makes requests `o : O`, each replied to by a value of `R o`, and
returns an `α`. The same program can be run alone, with a handler that answers each request from the
state (`Proc.run`), or in steps among others (`Base.Interleave`).

`Safe may next post g x`: started with the knowledge `g`, the program makes only requests that it
may make and returns with `post`, where `next g o r g'` says that `r` may be the reply to `o`, and
that `g'` is known then. It composes along `bind`. `Asks replies o x`: some run of the program makes
the request `o`.
-/

set_option autoImplicit false

namespace Base

inductive Proc (O : Type) (R : O → Type) (α : Type)
  | done (a : α)
  | req (o : O) (k : R o → Proc O R α)

namespace Proc

variable {O : Type} {R : O → Type} {α β σ G : Type}

protected def bind : Proc O R α → (α → Proc O R β) → Proc O R β
  | done a, f => f a
  | req o k, f => req o fun r => (k r).bind f

instance : Monad (Proc O R) where
  pure := done
  bind := Proc.bind

/-- One request. -/
def call (o : O) : Proc O R (R o) := req o done

@[simp] theorem pure_def (a : α) : (pure a : Proc O R α) = done a := rfl

@[simp] theorem done_bind (a : α) (f : α → Proc O R β) : done a >>= f = f a := rfl

@[simp] theorem req_bind (o : O) (k : R o → Proc O R α) (f : α → Proc O R β) :
    req o k >>= f = req o fun r => k r >>= f := rfl

@[simp] theorem call_bind (o : O) (f : R o → Proc O R β) : call o >>= f = req o f := rfl

/-! ## Alone -/

/-- The program with its requests answered by `handle`. -/
def run (handle : (o : O) → Prog σ (R o)) : Proc O R α → Prog σ α
  | done a => pure a
  | req o k => do run handle (k (← handle o))

@[simp] theorem run_done (handle : (o : O) → Prog σ (R o)) (a : α) :
    run handle (done a : Proc O R α) = pure a := rfl

@[simp] theorem run_req (handle : (o : O) → Prog σ (R o)) (o : O) (k : R o → Proc O R α) :
    run handle (req o k) = handle o >>= fun r => run handle (k r) := rfl

theorem run_bind (handle : (o : O) → Prog σ (R o)) (f : α → Proc O R β) : ∀ x : Proc O R α,
    run handle (x >>= f) = run handle x >>= fun a => run handle (f a)
  | done _ => rfl
  | req o k => by
    funext s
    rw [req_bind, run_req, run_req, bind_assoc]
    simp only [run_bind handle f]

/-! ## What a program knows of its requests -/

section
variable (may : G → O → Prop) (next : G → (o : O) → R o → G → Prop)

def Safe (post : G → α → Prop) : G → Proc O R α → Prop
  | g, done a => post g a
  | g, req o k => may g o ∧ ∀ r g', next g o r g' → Safe post g' (k r)

variable {may next} {post : G → α → Prop} {post' : G → β → Prop} {g : G}

theorem Safe.mono {post₂ : G → α → Prop} {x : Proc O R α} (h : Safe may next post g x)
    (hp : ∀ g a, post g a → post₂ g a) : Safe may next post₂ g x := by
  induction x generalizing g with
  | done a => exact hp g a h
  | req o k ih => exact ⟨h.1, fun r g' hn => ih r (h.2 r g' hn)⟩

theorem Safe.weaken {may' : G → O → Prop} {x : Proc O R α} (h : Safe may next post g x)
    (hm : ∀ g o, may g o → may' g o) : Safe may' next post g x := by
  induction x generalizing g with
  | done a => exact h
  | req o k ih => exact ⟨hm g o h.1, fun r g' hn => ih r (h.2 r g' hn)⟩

theorem Safe.bind {f : α → Proc O R β}
    (hf : ∀ g a, post g a → Safe may next post' g (f a)) :
    ∀ {x : Proc O R α} {g : G}, Safe may next post g x → Safe may next post' g (x >>= f)
  | done a, g, h => hf g a h
  | req _ _, _, h => ⟨h.1, fun r g' hn => (h.2 r g' hn).bind hf⟩

end

/-! ## What a program may come to ask for -/

section
variable (replies : (o : O) → R o → Prop)

/-- In some run whose replies are as `replies` says, the program makes the request `o'`. -/
def Asks (o' : O) : Proc O R α → Prop
  | done _ => False
  | req o k => o = o' ∨ ∃ r, replies o r ∧ Asks o' (k r)

variable {replies} {o' : O}

@[simp] theorem asks_done (a : α) : Asks replies o' (done a : Proc O R α) ↔ False := Iff.rfl

@[simp] theorem asks_req (o : O) (k : R o → Proc O R α) :
    Asks replies o' (req o k) ↔ o = o' ∨ ∃ r, replies o r ∧ Asks replies o' (k r) := Iff.rfl

/-- Another request, of which all replies are known. -/
theorem asks_req_of_ne {ι : Type} {o : O} {k : R o → Proc O R α} {reply : ι → R o} (ho : o ≠ o')
    (hreplies : ∀ r, replies o r ↔ ∃ i, r = reply i) :
    Asks replies o' (req o k) ↔ ∃ i, Asks replies o' (k (reply i)) := by
  rw [asks_req, or_iff_right ho]
  constructor
  · intro h
    obtain ⟨r, hr, h⟩ := h
    obtain ⟨i, rfl⟩ := (hreplies r).1 hr
    exact ⟨i, h⟩
  · intro h
    obtain ⟨i, h⟩ := h
    exact ⟨reply i, (hreplies _).2 ⟨i, rfl⟩, h⟩

end

end Proc

end Base
