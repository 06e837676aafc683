import Mathlib.Tactic.Basic

/-!
# Programs that ask

A program asks requests of type `ι` and goes on with the replies; a request `i`
is answered by a `ρ i`. What the world does with a request is a relation
between its states before and after and the reply. `Holds` says of a program
that, whatever the world answers, an invariant holds at every question and a
postcondition at the end.

An `Action` is a program with a state and exceptions. An exception does not
undo what was done to the state.
-/

namespace Interaction

/-- A finite program. -/
inductive Prog (ι : Type) (ρ : ι → Type) (α : Type) : Type
  | done (a : α)
  | ask (i : ι) (k : ρ i → Prog ι ρ α)

variable {ι : Type} {ρ : ι → Type} {α β : Type}

namespace Prog

def bind : Prog ι ρ α → (α → Prog ι ρ β) → Prog ι ρ β
  | done a, f => f a
  | ask i k, f => ask i fun r => (k r).bind f

theorem bind_assoc {γ : Type} (f : α → Prog ι ρ β) (g : β → Prog ι ρ γ) : ∀ (p : Prog ι ρ α),
    (p.bind f).bind g = p.bind fun a => (f a).bind g
  | done _ => rfl
  | ask i k => congrArg (ask i) (funext fun r => bind_assoc f g (k r))

theorem bind_done : ∀ p : Prog ι ρ α, p.bind done = p
  | done _ => rfl
  | ask i k => congrArg (ask i) (funext fun r => bind_done (k r))

/-! ## With the replies given -/

/-- The reply to a question, after the questions before it. -/
abbrev Oracle (ι : Type) (ρ : ι → Type) := List ι → (i : ι) → ρ i

section Oracles

variable (o : Oracle ι ρ)

/-- What a program returns. -/
def run : List ι → Prog ι ρ α → α
  | _, done a => a
  | h, ask i k => run (h ++ [i]) (k (o h i))

/-- What a program asks. -/
def asked : List ι → Prog ι ρ α → List ι
  | _, done _ => []
  | h, ask i k => i :: asked (h ++ [i]) (k (o h i))

/-- Some question of a program has a reply of a kind. -/
def Meets (bad : (i : ι) → ρ i → Prop) : List ι → Prog ι ρ α → Prop
  | _, done _ => False
  | h, ask i k => bad i (o h i) ∨ Meets bad (h ++ [i]) (k (o h i))

theorem run_bind (f : α → Prog ι ρ β) : ∀ (h : List ι) (p : Prog ι ρ α),
    (p.bind f).run o h = (f (p.run o h)).run o (h ++ p.asked o h)
  | h, done a => by rw [asked, List.append_nil]; rfl
  | h, ask i k => by
      rw [bind, run, run_bind f (h ++ [i]), asked, run, List.append_assoc, List.singleton_append]

theorem asked_bind (f : α → Prog ι ρ β) : ∀ (h : List ι) (p : Prog ι ρ α),
    (p.bind f).asked o h = p.asked o h ++ (f (p.run o h)).asked o (h ++ p.asked o h)
  | h, done a => by rw [bind, asked, List.append_nil, List.nil_append]; rfl
  | h, ask i k => by
      rw [bind, asked, asked_bind f (h ++ [i]), asked, run, List.append_assoc,
        List.singleton_append, List.cons_append]

/-- Two oracles that differ on bad replies only give the same run when none is
met. -/
theorem run_congr {o : Oracle ι ρ} {o' : Oracle ι ρ} {bad : (i : ι) → ρ i → Prop}
    (hsame : ∀ h i, ¬ bad i (o h i) → o' h i = o h i) : ∀ {h : List ι} {p : Prog ι ρ α},
      ¬ p.Meets o bad h → p.run o' h = p.run o h ∧ p.asked o' h = p.asked o h
  | _, done _, _ => ⟨rfl, rfl⟩
  | h, ask i k, hnot => by
      have hreply := hsame h i fun hbad => hnot (.inl hbad)
      obtain ⟨hrun, hasked⟩ := run_congr hsame (h := h ++ [i]) fun hmeets => hnot (.inr hmeets)
      exact ⟨by rw [run, run, hreply, hrun], by rw [asked, asked, hreply, hasked]⟩

/-- A question that is met is asked. -/
theorem Meets.exists_asked {o : Oracle ι ρ} {bad : (i : ι) → ρ i → Prop} : ∀ {h : List ι}
    {p : Prog ι ρ α}, p.Meets o bad h → ∃ i ∈ p.asked o h, ∃ r, bad i r
  | h, ask i k, hmeets => by
      rcases hmeets with hbad | hmeets
      · exact ⟨i, List.mem_cons_self, _, hbad⟩
      · obtain ⟨j, hj, hbad⟩ := Meets.exists_asked hmeets
        exact ⟨j, List.mem_cons_of_mem _ hj, hbad⟩

end Oracles

/-! ## Against a world -/

/-- How a world of states `W` answers. -/
abbrev Answers (ι : Type) (ρ : ι → Type) (W : Type) := W → (i : ι) → W → ρ i → Prop

variable {W : Type} {answers : Answers ι ρ W} {safe : W → Prop}

/-- The invariant holds before every question and at the end, where the
postcondition holds too. -/
def Holds (answers : Answers ι ρ W) (safe : W → Prop) (post : α → W → Prop) :
    Prog ι ρ α → W → Prop
  | done a, w => safe w ∧ post a w
  | ask i k, w => safe w ∧ ∀ w' r, answers w i w' r → Holds answers safe post (k r) w'

theorem Holds.before {post : α → W → Prop} : ∀ {p : Prog ι ρ α} {w : W},
    p.Holds answers safe post w → safe w
  | done _, _, h => h.1
  | ask _ _, _, h => h.1

theorem Holds.mono {post post' : α → W → Prop} (hpost : ∀ a w, safe w → post a w → post' a w) :
    ∀ {p : Prog ι ρ α} {w : W}, p.Holds answers safe post w → p.Holds answers safe post' w
  | done a, w, h => ⟨h.1, hpost a w h.1 h.2⟩
  | ask _ _, _, h => ⟨h.1, fun w' r ha => (h.2 w' r ha).mono hpost⟩

theorem Holds.bind {post : α → W → Prop} {post' : β → W → Prop} {f : α → Prog ι ρ β}
    (hf : ∀ a w, safe w → post a w → (f a).Holds answers safe post' w) :
    ∀ {p : Prog ι ρ α} {w : W}, p.Holds answers safe post w → (p.bind f).Holds answers safe post' w
  | done a, w, h => hf a w h.1 h.2
  | ask _ _, _, h => ⟨h.1, fun w' r ha => (h.2 w' r ha).bind hf⟩

/-- A world that the replies do not change. -/
theorem Holds.run {post : α → W → Prop} {o : Oracle ι ρ} {w : W}
    (hanswers : ∀ h i, answers w i w (o h i)) : ∀ {h : List ι} {p : Prog ι ρ α},
      p.Holds answers safe post w → post (p.run o h) w
  | _, done _, hp => hp.2
  | h, ask i _, hp => (hp.2 w (o h i) (hanswers h i)).run (h := h ++ [i]) hanswers

/-- What a program asks and returns, whatever the replies. -/
def Within (asks : ι → Prop) (post : α → Prop) : Prog ι ρ α → Prop
  | done a => post a
  | ask i k => asks i ∧ ∀ r, (k r).Within asks post

theorem Within.bind {asks : ι → Prop} {post : α → Prop} {post' : β → Prop} {f : α → Prog ι ρ β}
    (hf : ∀ a, post a → (f a).Within asks post') :
    ∀ {p : Prog ι ρ α}, p.Within asks post → (p.bind f).Within asks post'
  | done a, h => hf a h
  | ask _ _, h => ⟨h.1, fun r => (h.2 r).bind hf⟩

theorem Within.mono {asks asks' : ι → Prop} {post post' : α → Prop}
    (hasks : ∀ i, asks i → asks' i) (hpost : ∀ a, post a → post' a) :
    ∀ {p : Prog ι ρ α}, p.Within asks post → p.Within asks' post'
  | done a, h => hpost a h
  | ask i _, h => ⟨hasks i h.1, fun r => (h.2 r).mono hasks hpost⟩

theorem Within.holds {asks : ι → Prop} {post : α → Prop} {inv : W → Prop}
    (hsafe : ∀ w, inv w → safe w)
    (hkeep : ∀ w i w' r, asks i → inv w → answers w i w' r → inv w') :
    ∀ {p : Prog ι ρ α} {w : W}, p.Within asks post → inv w →
      p.Holds answers safe (fun a w => post a ∧ inv w) w
  | done _, w, h, hinv => ⟨hsafe w hinv, h, hinv⟩
  | ask i _, w, h, hinv => ⟨hsafe w hinv, fun w' r ha =>
      Within.holds hsafe hkeep (h.2 r) (hkeep w i w' r h.1 hinv ha)⟩

theorem Within.asked {asks : ι → Prop} {post : α → Prop} (o : Oracle ι ρ) :
    ∀ {h : List ι} {p : Prog ι ρ α}, p.Within asks post →
      (∀ i ∈ p.asked o h, asks i) ∧ post (p.run o h)
  | _, done _, hp => ⟨fun _ hi => absurd hi List.not_mem_nil, hp⟩
  | h, ask i k, hp => by
      obtain ⟨hasked, hpost⟩ := Within.asked o (h := h ++ [i]) (hp.2 (o h i))
      refine ⟨fun j hj => ?_, hpost⟩
      rcases List.mem_cons.mp hj with rfl | hj
      · exact hp.1
      · exact hasked j hj

end Prog

/-! ## State and exceptions -/

/-- An exception in answer to one of these questions leaves the program. -/
def Prog.Strict {γ : ι → Type} {σ ε : Type} (asks : ι → Prop) :
    Prog ι (fun i => Except ε (γ i)) (Except ε α × σ) → Prop
  | .done _ => True
  | .ask i k => (asks i → ∀ e, ∃ s, k (.error e) = .done (.error e, s)) ∧ ∀ r, (k r).Strict asks

/-- Such an exception is the result. -/
theorem Prog.Strict.raises {γ : ι → Type} {σ ε : Type} {asks : ι → Prop}
    {o : Oracle ι fun i => Except ε (γ i)} : ∀ {h : List ι}
      {p : Prog ι (fun i => Except ε (γ i)) (Except ε α × σ)}, p.Strict asks →
      p.Meets o (fun i r => asks i ∧ ∃ e, r = .error e) h →
      ∃ e s, p.run o h = (.error e, s)
  | h, .ask i k, hstrict, hmeets => by
      rcases hmeets with ⟨hasks, e, he⟩ | hmeets
      · obtain ⟨s, hs⟩ := hstrict.1 hasks e
        refine ⟨e, s, ?_⟩
        rw [Prog.run, he, hs]
        rfl
      · exact Prog.Strict.raises (h := h ++ [i]) (hstrict.2 _) hmeets

/-- A program that does not ask them. -/
theorem Prog.Within.strict_bind {γ : ι → Type} {σ ε : Type} {asks : ι → Prop} {post : β → Prop}
    {f : β → Prog ι (fun i => Except ε (γ i)) (Except ε α × σ)} (hf : ∀ b, (f b).Strict asks) :
    ∀ {p : Prog ι (fun i => Except ε (γ i)) β}, p.Within (fun i => ¬ asks i) post →
      (p.bind f).Strict asks
  | .done b, _ => hf b
  | .ask _ _, hp => ⟨fun hasks => absurd hasks hp.1, fun r => (hp.2 r).strict_bind hf⟩

/-- A program that reads and writes a state and may raise. -/
def Action (ι : Type) (ρ : ι → Type) (σ ε α : Type) := σ → Prog ι ρ (Except ε α × σ)

variable {σ ε : Type}

namespace Action

def pure (a : α) : Action ι ρ σ ε α := fun s => .done (.ok a, s)

def bind (x : Action ι ρ σ ε α) (f : α → Action ι ρ σ ε β) : Action ι ρ σ ε β := fun s =>
  (x s).bind fun
    | (.ok a, s) => f a s
    | (.error e, s) => .done (.error e, s)

instance : Monad (Action ι ρ σ ε) where
  pure := pure
  bind := bind

def raise (e : ε) : Action ι ρ σ ε α := fun s => .done (.error e, s)

/-- The result of a computation without requests. -/
def lift (x : Except ε α) : Action ι ρ σ ε α := fun s => .done (x, s)

def get : Action ι ρ σ ε σ := fun s => .done (.ok s, s)

def modify (f : σ → σ) : Action ι ρ σ ε Unit := fun s => .done (.ok (), f s)

/-- A question whose reply may be an exception. -/
def request {γ : ι → Type} (i : ι) : Action ι (fun i => Except ε (γ i)) σ ε (γ i) := fun s =>
  .ask i fun r => .done (r, s)

/-- A handler for every exception. -/
def attempt (x : Action ι ρ σ ε α) (handler : ε → Action ι ρ σ ε α) : Action ι ρ σ ε α := fun s =>
  (x s).bind fun
    | (.ok a, s) => .done (.ok a, s)
    | (.error e, s) => handler e s

/-- A loop over a list, which an exception leaves. -/
def forEach : List α → (α → Action ι ρ σ ε Unit) → Action ι ρ σ ε Unit
  | [], _ => pure ()
  | a :: rest, body => bind (body a) fun _ => forEach rest body

theorem bind_assoc {γ : Type} (x : Action ι ρ σ ε α) (f : α → Action ι ρ σ ε β)
    (g : β → Action ι ρ σ ε γ) : (x >>= f) >>= g = x >>= fun a => f a >>= g := by
  funext s
  refine (Prog.bind_assoc _ _ _).trans (congrArg (x s).bind (funext fun r => ?_))
  obtain ⟨r, s⟩ := r
  cases r with
  | ok a => rfl
  | error e => rfl

section Runs

variable {o : Prog.Oracle ι ρ} {h : List ι} {x : Action ι ρ σ ε α} {f : α → Action ι ρ σ ε β}
  {s s' : σ}

theorem run_bind_ok {a : α} (hx : (x s).run o h = (.ok a, s')) :
    ((x >>= f) s).run o h = (f a s').run o (h ++ (x s).asked o h) := by
  refine (Prog.run_bind o _ h (x s)).trans ?_
  rw [hx]

theorem asked_bind_ok {a : α} (hx : (x s).run o h = (.ok a, s')) :
    ((x >>= f) s).asked o h = (x s).asked o h ++ (f a s').asked o (h ++ (x s).asked o h) := by
  refine (Prog.asked_bind o _ h (x s)).trans ?_
  rw [hx]

theorem run_bind_error {e : ε} (hx : (x s).run o h = (.error e, s')) :
    ((x >>= f) s).run o h = (.error e, s') := by
  refine (Prog.run_bind o _ h (x s)).trans ?_
  rw [hx]
  rfl

theorem asked_bind_error {e : ε} (hx : (x s).run o h = (.error e, s')) :
    ((x >>= f) s).asked o h = (x s).asked o h := by
  refine (Prog.asked_bind o _ h (x s)).trans ?_
  rw [hx]
  exact List.append_nil _

/-- A sequence that returns has a first part that returns. -/
theorem run_bind_eq_ok {b : β} (hx : ((x >>= f) s).run o h = (.ok b, s')) :
    ∃ a t, (x s).run o h = (.ok a, t) := by
  cases hrun : (x s).run o h with
  | mk r t =>
      cases r with
      | ok a => exact ⟨a, t, rfl⟩
      | error e =>
          rw [run_bind_error hrun] at hx
          cases hx

end Runs

/-! ## Frames -/

section Frames

variable {asks : ι → Prop} {τ : Type} {view : σ → τ}

/-- The action asks only certain questions and leaves a part of the state as it
is. -/
def Within (asks : ι → Prop) (view : σ → τ) (x : Action ι ρ σ ε α) : Prop :=
  ∀ s, (x s).Within asks fun r => view r.2 = view s

theorem Within.pure {a : α} : Within asks view (Pure.pure a : Action ι ρ σ ε α) := fun _ => rfl

theorem Within.raise {e : ε} : Within asks view (raise e : Action ι ρ σ ε α) := fun _ => rfl

theorem Within.lift {x : Except ε α} : Within asks view (lift x : Action ι ρ σ ε α) := fun _ => rfl

theorem Within.get : Within asks view (get : Action ι ρ σ ε σ) := fun _ => rfl

theorem Within.modify {f : σ → σ} (h : ∀ s, view (f s) = view s) :
    Within asks view (modify f : Action ι ρ σ ε Unit) := fun s => h s

theorem Within.bind {x : Action ι ρ σ ε α} {f : α → Action ι ρ σ ε β} (hx : Within asks view x)
    (hf : ∀ a, Within asks view (f a)) : Within asks view (x >>= f) := fun s =>
  (hx s).bind fun r hr => by
    obtain ⟨r, s'⟩ := r
    cases r with
    | ok a =>
        rw [← show view s' = view s from hr]
        exact hf a s'
    | error e => exact hr

theorem Within.attempt {x : Action ι ρ σ ε α} {handler : ε → Action ι ρ σ ε α}
    (hx : Within asks view x) (hhandler : ∀ e, Within asks view (handler e)) :
    Within asks view (attempt x handler) := fun s =>
  (hx s).bind fun r hr => by
    obtain ⟨r, s'⟩ := r
    cases r with
    | ok a => exact hr
    | error e =>
        rw [← show view s' = view s from hr]
        exact hhandler e s'

theorem Within.forEach {body : α → Action ι ρ σ ε Unit} (hbody : ∀ a, Within asks view (body a)) :
    ∀ {l : List α}, Within asks view (forEach l body)
  | [] => Within.pure
  | a :: _ => Within.bind (hbody a) fun _ => Within.forEach hbody

/-- Only what may be asked. -/
theorem Within.forget {asks' : ι → Prop} {x : Action ι ρ σ ε α} (hx : Within asks view x)
    (hasks : ∀ i, asks i → asks' i) : Within asks' (fun _ => ()) x := fun s =>
  (hx s).mono hasks fun _ _ => rfl

end Frames

/-- A question is within what may be asked. -/
theorem Within.request {γ : ι → Type} {asks : ι → Prop} {τ : Type} {view : σ → τ} {i : ι}
    (h : asks i) : Within asks view (request i : Action ι (fun i => Except ε (γ i)) σ ε (γ i)) :=
  fun _ => ⟨h, fun _ => rfl⟩

/-! ## Two runs -/

section Agreement

variable {o o' : Prog.Oracle ι ρ}

/-- From all states two actions ask the same and return the same. -/
def Agrees (o o' : Prog.Oracle ι ρ) (x y : Action ι ρ σ ε α) : Prop :=
  ∀ h s s', ((y s').run o' h).1 = ((x s).run o h).1 ∧ (y s').asked o' h = (x s).asked o h

theorem Agrees.pure {a : α} :
    Agrees o o' (Pure.pure a : Action ι ρ σ ε α) (Pure.pure a) := fun _ _ _ => ⟨rfl, rfl⟩

theorem Agrees.lift {x : Except ε α} :
    Agrees o o' (lift x : Action ι ρ σ ε α) (lift x) := fun _ _ _ => ⟨rfl, rfl⟩

theorem Agrees.modify {f g : σ → σ} :
    Agrees o o' (modify f : Action ι ρ σ ε Unit) (modify g) := fun _ _ _ => ⟨rfl, rfl⟩

theorem Agrees.bind {x y : Action ι ρ σ ε α} {f g : α → Action ι ρ σ ε β} (hxy : Agrees o o' x y)
    (hfg : ∀ a, Agrees o o' (f a) (g a)) : Agrees o o' (x >>= f) (y >>= g) := fun h s s' => by
  obtain ⟨hrun, hasked⟩ := hxy h s s'
  cases hx : (x s).run o h with
  | mk r t =>
      cases hy : (y s').run o' h with
      | mk r' t' =>
          obtain rfl : r' = r := by rw [hx, hy] at hrun; exact hrun
          cases r' with
          | ok a =>
              rw [run_bind_ok hx, run_bind_ok hy, asked_bind_ok hx, asked_bind_ok hy, hasked]
              obtain ⟨hrun', hasked'⟩ := hfg a (h ++ (x s).asked o h) t t'
              exact ⟨hrun', by rw [hasked']⟩
          | error e =>
              rw [run_bind_error hx, run_bind_error hy, asked_bind_error hx, asked_bind_error hy]
              exact ⟨rfl, hasked⟩

/-- What returns in one run returns in the other. -/
theorem Agrees.returns {x y : Action ι ρ σ ε α} (hxy : Agrees o o' x y) {h : List ι} {s s' t' : σ}
    {a : α} (hy : (y s').run o' h = (.ok a, t')) : ∃ t, (x s).run o h = (.ok a, t) := by
  have hrun := (hxy h s s').1
  rw [hy] at hrun
  exact ⟨((x s).run o h).2, Prod.ext hrun.symm rfl⟩

end Agreement

/-- A question that has the same answer. -/
theorem Agrees.request {γ : ι → Type} {o o' : Prog.Oracle ι fun i => Except ε (γ i)} {i : ι}
    (hsame : ∀ h, o' h i = o h i) :
    Agrees o o' (request i : Action ι (fun i => Except ε (γ i)) σ ε (γ i)) (request i) :=
  fun h _ _ => ⟨hsame h, rfl⟩

/-! ## Questions that are not guarded -/

section Strict

variable {γ : ι → Type} {asks : ι → Prop}

def Strict (asks : ι → Prop) (x : Action ι (fun i => Except ε (γ i)) σ ε α) : Prop :=
  ∀ s, (x s).Strict asks

theorem Strict.pure {a : α} :
    Strict asks (Pure.pure a : Action ι (fun i => Except ε (γ i)) σ ε α) := fun _ => trivial

theorem Strict.lift {x : Except ε α} :
    Strict asks (lift x : Action ι (fun i => Except ε (γ i)) σ ε α) := fun _ => trivial

theorem Strict.get : Strict asks (get : Action ι (fun i => Except ε (γ i)) σ ε σ) :=
  fun _ => trivial

theorem Strict.modify {f : σ → σ} :
    Strict asks (modify f : Action ι (fun i => Except ε (γ i)) σ ε Unit) := fun _ => trivial

theorem Strict.request {i : ι} :
    Strict asks (request i : Action ι (fun i => Except ε (γ i)) σ ε (γ i)) := fun s =>
  ⟨fun _ _ => ⟨s, rfl⟩, fun _ => trivial⟩

theorem Strict.bind {x : Action ι (fun i => Except ε (γ i)) σ ε α}
    {f : α → Action ι (fun i => Except ε (γ i)) σ ε β} (hx : Strict asks x)
    (hf : ∀ a, Strict asks (f a)) : Strict asks (x >>= f) := by
  have hbind : ∀ {p : Prog ι (fun i => Except ε (γ i)) (Except ε α × σ)}, p.Strict asks →
      (p.bind fun
        | (.ok a, s) => f a s
        | (.error e, s) => .done (.error e, s)).Strict asks := by
    intro p hp
    induction p with
    | done r =>
        obtain ⟨r, s⟩ := r
        cases r with
        | ok a => exact hf a s
        | error e => trivial
    | ask i k ih =>
        refine ⟨fun hasks e => ?_, fun r => ih r (hp.2 r)⟩
        obtain ⟨s, hs⟩ := hp.1 hasks e
        exact ⟨s, congrArg (Prog.bind · _) hs⟩
  exact fun s => hbind (hx s)

theorem Strict.forEach {body : α → Action ι (fun i => Except ε (γ i)) σ ε Unit}
    (hbody : ∀ a, Strict asks (body a)) : ∀ {l : List α}, Strict asks (forEach l body)
  | [] => Strict.pure
  | a :: _ => Strict.bind (hbody a) fun _ => Strict.forEach hbody

/-- What asks none of the questions may be guarded. -/
theorem Strict.of_within {τ : Type} {view : σ → τ} {x : Action ι (fun i => Except ε (γ i)) σ ε α}
    (hx : Within (fun i => ¬ asks i) view x) : Strict asks x := fun s => by
  have hdone : ((x s).bind Prog.done).Strict asks := (hx s).strict_bind (f := Prog.done) fun _ => trivial
  rwa [Prog.bind_done] at hdone

end Strict

/-! ## Triples -/

section Triples

variable {W : Type} {answers : Prog.Answers ι ρ W} {safe : W → Prop}

/-- What is asserted of an outcome: one assertion for a return, one for an
exception. -/
def outcome (post : α → σ → W → Prop) (exc : ε → σ → W → Prop) : Except ε α × σ → W → Prop
  | (.ok a, s) => post a s
  | (.error e, s) => exc e s

/-- From the precondition, every run keeps the world safe and ends in one of
the two assertions. -/
def Triple (answers : Prog.Answers ι ρ W) (safe : W → Prop) (pre : σ → W → Prop)
    (x : Action ι ρ σ ε α) (post : α → σ → W → Prop) (exc : ε → σ → W → Prop) : Prop :=
  ∀ s w, safe w → pre s w → (x s).Holds answers safe (outcome post exc) w

variable {pre : σ → W → Prop} {post : α → σ → W → Prop} {exc : ε → σ → W → Prop}

theorem Triple.pure {a : α} (h : ∀ s w, safe w → pre s w → post a s w) :
    Triple answers safe pre (Pure.pure a : Action ι ρ σ ε α) post exc := fun s w hw hpre =>
  ⟨hw, h s w hw hpre⟩

theorem Triple.raise {e : ε} (h : ∀ s w, safe w → pre s w → exc e s w) :
    Triple answers safe pre (raise e : Action ι ρ σ ε α) post exc := fun s w hw hpre =>
  ⟨hw, h s w hw hpre⟩

theorem Triple.lift {x : Except ε α} (hok : ∀ a s w, x = .ok a → safe w → pre s w → post a s w)
    (herror : ∀ e s w, x = .error e → safe w → pre s w → exc e s w) :
    Triple answers safe pre (lift x) post exc := fun s w hw hpre => by
  cases x with
  | ok a => exact ⟨hw, hok a s w rfl hw hpre⟩
  | error e => exact ⟨hw, herror e s w rfl hw hpre⟩

theorem Triple.get {post : σ → σ → W → Prop} (h : ∀ s w, safe w → pre s w → post s s w) :
    Triple answers safe pre (get : Action ι ρ σ ε σ) post exc := fun s w hw hpre =>
  ⟨hw, h s w hw hpre⟩

theorem Triple.modify {f : σ → σ} {post : Unit → σ → W → Prop}
    (h : ∀ s w, safe w → pre s w → post () (f s) w) :
    Triple answers safe pre (modify f : Action ι ρ σ ε Unit) post exc := fun s w hw hpre =>
  ⟨hw, h s w hw hpre⟩

theorem Triple.bind {m : α → σ → W → Prop} {x : Action ι ρ σ ε α} {f : α → Action ι ρ σ ε β}
    {post : β → σ → W → Prop} (hx : Triple answers safe pre x m exc)
    (hf : ∀ a, Triple answers safe (m a) (f a) post exc) :
    Triple answers safe pre (x >>= f) post exc := fun s w hw hpre =>
  (hx s w hw hpre).bind fun r w hw hmid => by
    obtain ⟨r, s⟩ := r
    cases r with
    | ok a => exact hf a s w hw hmid
    | error e => exact ⟨hw, hmid⟩

theorem Triple.attempt {m : ε → σ → W → Prop} {x : Action ι ρ σ ε α}
    {handler : ε → Action ι ρ σ ε α} (hx : Triple answers safe pre x post m)
    (hhandler : ∀ e, Triple answers safe (m e) (handler e) post exc) :
    Triple answers safe pre (attempt x handler) post exc := fun s w hw hpre =>
  (hx s w hw hpre).bind fun r w hw hmid => by
    obtain ⟨r, s⟩ := r
    cases r with
    | ok a => exact ⟨hw, hmid⟩
    | error e => exact hhandler e s w hw hmid

theorem Triple.conseq {pre' : σ → W → Prop} {post' : α → σ → W → Prop} {exc' : ε → σ → W → Prop}
    {x : Action ι ρ σ ε α} (hx : Triple answers safe pre x post exc)
    (hpre : ∀ s w, safe w → pre' s w → pre s w)
    (hpost : ∀ a s w, safe w → post a s w → post' a s w)
    (hexc : ∀ e s w, safe w → exc e s w → exc' e s w) :
    Triple answers safe pre' x post' exc' := fun s w hw hpre' =>
  (hx s w hw (hpre s w hw hpre')).mono fun r w hw h => by
    obtain ⟨r, s⟩ := r
    cases r with
    | ok a => exact hpost a s w hw h
    | error e => exact hexc e s w hw h

/-- A triple may be shown for each state and world that meets the
precondition. -/
theorem Triple.of_states {x : Action ι ρ σ ε α}
    (h : ∀ s w, safe w → pre s w →
      Triple answers safe (fun s' w' => s' = s ∧ w' = w) x post exc) :
    Triple answers safe pre x post exc := fun s w hw hpre => h s w hw hpre s w hw ⟨rfl, rfl⟩

theorem Triple.to_states {x : Action ι ρ σ ε α} {s : σ} {w : W}
    (h : Triple answers safe pre x post exc) (hpre : pre s w) :
    Triple answers safe (fun s' w' => s' = s ∧ w' = w) x post exc := by
  rintro s' w' hw ⟨rfl, rfl⟩
  exact h s' w' hw hpre

/-- What the questions keep and what does not depend on the changes of the
state is kept. -/
theorem Triple.of_within {asks : ι → Prop} {τ : Type} {view : σ → τ} {x : Action ι ρ σ ε α}
    (hx : Within asks view x)
    (hasks : ∀ s w i w' r, asks i → safe w → pre s w → answers w i w' r → safe w' ∧ pre s w')
    (hview : ∀ s s' w, view s' = view s → pre s w → pre s' w) :
    Triple answers safe pre x (fun _ => pre) (fun _ => pre) := fun s w hw hpre =>
  ((hx s).holds (fun _ h => h.1)
    (fun w i w' r hi h ha => hasks s w i w' r hi h.1 h.2 ha) ⟨hw, hpre⟩).mono
    fun r w _ h => by
      obtain ⟨r, s'⟩ := r
      cases r with
      | ok a => exact hview s s' w h.1 h.2.2
      | error e => exact hview s s' w h.1 h.2.2

/-- A loop keeps what its body keeps. -/
theorem Triple.forEach {body : α → Action ι ρ σ ε Unit} : ∀ {l : List α},
    (∀ a ∈ l, Triple answers safe pre (body a) (fun _ => pre) exc) →
    Triple answers safe pre (forEach l body) (fun _ => pre) exc
  | [], _ => Triple.pure fun _ _ _ h => h
  | a :: _, h =>
      Triple.bind (h a List.mem_cons_self) fun _ =>
        Triple.forEach fun b hb => h b (List.mem_cons_of_mem _ hb)

end Triples

/-- A question is answered. -/
theorem Triple.request {γ : ι → Type} {W : Type}
    {answers : Prog.Answers ι (fun i => Except ε (γ i)) W} {safe : W → Prop} {pre : σ → W → Prop}
    {i : ι} {post : γ i → σ → W → Prop} {exc : ε → σ → W → Prop}
    (hok : ∀ s w w' r, safe w → pre s w → answers w i w' (.ok r) → safe w' ∧ post r s w')
    (herror : ∀ s w w' e, safe w → pre s w → answers w i w' (.error e) → safe w' ∧ exc e s w') :
    Triple answers safe pre (request i) post exc := fun s w hw hpre =>
  ⟨hw, fun w' r ha => by
    cases r with
    | ok r => exact hok s w w' r hw hpre ha
    | error e => exact herror s w w' e hw hpre ha⟩

end Action

/-! ## Services

A service loads its state, then runs one cycle after another, whether a cycle
raised or not. It may stop at any moment, also between a question and its
effect on the state, and start again. -/

structure Service (ι : Type) (ρ : ι → Type) (σ ε W : Type) where
  load : Prog ι ρ (Except ε σ)
  cycle : Action ι ρ σ ε Unit
  answers : Prog.Answers ι ρ W
  mayStop : W → Prop

/-- What a service is at. -/
inductive Control (ι : Type) (ρ : ι → Type) (σ ε : Type)
  | down
  | loading (p : Prog ι ρ (Except ε σ))
  | idle (s : σ)
  | running (p : Prog ι ρ (Except ε Unit × σ))

namespace Service

variable {W : Type} (S : Service ι ρ σ ε W)

inductive Step : Control ι ρ σ ε → W → Control ι ρ σ ε → W → Prop
  | start {w : W} : Step .down w (.loading S.load) w
  | askLoading {i : ι} {k : ρ i → Prog ι ρ (Except ε σ)} {w w' : W} {r : ρ i} :
      S.answers w i w' r → Step (.loading (.ask i k)) w (.loading (k r)) w'
  | loaded {s : σ} {w : W} : Step (.loading (.done (.ok s))) w (.idle s) w
  | notLoaded {e : ε} {w : W} : Step (.loading (.done (.error e))) w .down w
  | cycle {s : σ} {w : W} : Step (.idle s) w (.running (S.cycle s)) w
  | ask {i : ι} {k : ρ i → Prog ι ρ (Except ε Unit × σ)} {w w' : W} {r : ρ i} :
      S.answers w i w' r → Step (.running (.ask i k)) w (.running (k r)) w'
  | finished {r : Except ε Unit} {s : σ} {w : W} : Step (.running (.done (r, s))) w (.idle s) w
  | stop {c : Control ι ρ σ ε} {w : W} : S.mayStop w → Step c w .down w

/-- Every state of the service and the world, from a stopped service on. -/
inductive Reachable (start : W) : Control ι ρ σ ε → W → Prop
  | start : Reachable start .down start
  | step {c c' : Control ι ρ σ ε} {w w' : W} :
      Reachable start c w → S.Step c w c' w' → Reachable start c' w'

/-- The states and worlds that a world leads to when it is given how it answers. -/
def play (answer : W → (i : ι) → W × ρ i) : Prog ι ρ α → W → α × W
  | .done a, w => (a, w)
  | .ask i k, w => play answer (k (answer w i).2) (answer w i).1

/-- Some cycles in turn. -/
def playCycles (answer : W → (i : ι) → W × ρ i) : Nat → σ → W → σ × W
  | 0, s, w => (s, w)
  | n + 1, s, w =>
      let r := play answer (S.cycle s) w
      playCycles answer n r.1.2 r.2

variable {S}

theorem Reachable.playLoading {answer : W → (i : ι) → W × ρ i}
    (ha : ∀ w i, S.answers w i (answer w i).1 (answer w i).2) {start : W} :
    ∀ {p : Prog ι ρ (Except ε σ)} {w : W}, S.Reachable start (.loading p) w →
      S.Reachable start (.loading (.done (play answer p w).1)) (play answer p w).2
  | .done _, _, h => h
  | .ask i k, w, h =>
      Reachable.playLoading (p := k (answer w i).2) ha (h.step (.askLoading (ha w i)))

theorem Reachable.playCycle {answer : W → (i : ι) → W × ρ i}
    (ha : ∀ w i, S.answers w i (answer w i).1 (answer w i).2) {start : W} :
    ∀ {p : Prog ι ρ (Except ε Unit × σ)} {w : W}, S.Reachable start (.running p) w →
      S.Reachable start (.running (.done (play answer p w).1)) (play answer p w).2
  | .done _, _, h => h
  | .ask i k, w, h =>
      Reachable.playCycle (p := k (answer w i).2) ha (h.step (.ask (ha w i)))

theorem Reachable.playCycles {answer : W → (i : ι) → W × ρ i}
    (ha : ∀ w i, S.answers w i (answer w i).1 (answer w i).2) {start : W} :
    ∀ {n : Nat} {s : σ} {w : W}, S.Reachable start (.idle s) w →
      S.Reachable start (.idle (S.playCycles answer n s w).1) (S.playCycles answer n s w).2
  | 0, _, _, h => h
  | n + 1, s, w, h => by
      have hidle : S.Reachable start (.idle (play answer (S.cycle s) w).1.2)
          (play answer (S.cycle s) w).2 := (Reachable.playCycle ha (h.step .cycle)).step .finished
      exact Reachable.playCycles (n := n) (s := (play answer (S.cycle s) w).1.2) ha hidle

/-- Some cycles from a stopped service on. -/
theorem Reachable.played {answer : W → (i : ι) → W × ρ i}
    (ha : ∀ w i, S.answers w i (answer w i).1 (answer w i).2) {start w : W} {s : σ}
    (hload : play answer S.load start = (.ok s, w)) (n : Nat) :
    S.Reachable start (.idle (S.playCycles answer n s w).1) (S.playCycles answer n s w).2 := by
  have hloaded := Reachable.playLoading ha (.step (.start : S.Reachable start .down start) .start)
  rw [hload] at hloaded
  exact Reachable.playCycles ha (hloaded.step .loaded)

/-- A service with fewer behaviours. -/
theorem Reachable.mono {S S' : Service ι ρ σ ε W} (hload : S'.load = S.load)
    (hcycle : S'.cycle = S.cycle) (hanswers : ∀ w i w' r, S.answers w i w' r → S'.answers w i w' r)
    (hstop : ∀ w, S.mayStop w → S'.mayStop w) {start w : W} {c : Control ι ρ σ ε}
    (h : S.Reachable start c w) : S'.Reachable start c w := by
  induction h with
  | start => exact .start
  | step _ hstep ih =>
      refine .step ih ?_
      cases hstep with
      | start => exact hload ▸ .start
      | askLoading ha => exact .askLoading (hanswers _ _ _ _ ha)
      | loaded => exact .loaded
      | notLoaded => exact .notLoaded
      | cycle => exact hcycle ▸ .cycle
      | ask ha => exact .ask (hanswers _ _ _ _ ha)
      | finished => exact .finished
      | stop hs => exact .stop (hstop _ hs)

/-- `inv` relates the state of the service to the world between two cycles,
`stopped` holds of the world while the service is down. -/
structure Keeps (S : Service ι ρ σ ε W) (safe stopped : W → Prop) (inv : σ → W → Prop) : Prop where
  load : ∀ w, safe w → stopped w → S.load.Holds S.answers safe
    (fun r w => match r with
      | .ok s => inv s w
      | .error _ => stopped w) w
  cycle : Action.Triple S.answers safe inv S.cycle (fun _ => inv) (fun _ => inv)
  stop : ∀ w, safe w → S.mayStop w → stopped w

variable {safe stopped : W → Prop} {inv : σ → W → Prop}

/-- What holds of the service and the world at every moment. -/
def Kept (S : Service ι ρ σ ε W) (safe stopped : W → Prop) (inv : σ → W → Prop)
    (c : Control ι ρ σ ε) (w : W) : Prop :=
  match c with
  | .down => safe w ∧ stopped w
  | .loading p => p.Holds S.answers safe
      (fun r w => match r with
        | .ok s => inv s w
        | .error _ => stopped w) w
  | .idle s => safe w ∧ inv s w
  | .running p => p.Holds S.answers safe (Action.outcome (fun _ => inv) (fun _ => inv)) w

theorem Kept.world {c : Control ι ρ σ ε} {w : W} (h : Kept S safe stopped inv c w) : safe w := by
  cases c with
  | down => exact h.1
  | loading p => exact Prog.Holds.before h
  | idle s => exact h.1
  | running p => exact Prog.Holds.before h

theorem Keeps.step (hkeeps : S.Keeps safe stopped inv) {c c' : Control ι ρ σ ε} {w w' : W}
    (h : Kept S safe stopped inv c w) (hstep : S.Step c w c' w') :
    Kept S safe stopped inv c' w' := by
  cases hstep with
  | start => exact hkeeps.load w h.1 h.2
  | askLoading ha => exact h.2 _ _ ha
  | loaded => exact h
  | notLoaded => exact h
  | cycle => exact hkeeps.cycle _ _ h.1 h.2
  | ask ha => exact h.2 _ _ ha
  | @finished r s w =>
      refine ⟨h.1, ?_⟩
      cases r with
      | ok u => exact h.2
      | error e => exact h.2
  | stop hs => exact ⟨Kept.world h, hkeeps.stop _ (Kept.world h) hs⟩

/-- An invariant of the cycle holds of every run. -/
theorem Keeps.reachable (hkeeps : S.Keeps safe stopped inv) {start : W} (hsafe : safe start)
    (hstopped : stopped start) {c : Control ι ρ σ ε} {w : W} (h : S.Reachable start c w) :
    Kept S safe stopped inv c w := by
  induction h with
  | start => exact ⟨hsafe, hstopped⟩
  | step _ hstep ih => exact hkeeps.step ih hstep

end Service

end Interaction
