import LoxLang.Proofs.Machine.Along
import LoxLang.Proofs.Machine.Paced

namespace LoxLang
set_option autoImplicit true

def Host.tells (host : Host) (m : Machine) : Bool := host.signal m.polls m.output

/-- A host that never tells a run to stop and is otherwise like another. -/
structure Host.Frees (free host : Host) : Prop where
  natives : free.natives = host.natives
  now : free.now = host.now
  never : ∀ polls output, free.signal polls output = false

namespace Native

theorem attempt_bind {σ : Type} (P : EStateM Stop σ α) (F : Except Stop α → EStateM Stop σ β)
    (s : σ) : (attempt P >>= F) s =
      match P s with
      | .ok a s' => F (.ok a) s'
      | .error e s' => if e.isFatal then .error e s' else F (.error e) s' := by
  change EStateM.bind (attempt P) F s = _
  unfold EStateM.bind attempt
  cases P s with
  | ok a s' => rfl
  | error e s' =>
    dsimp only
    cases e.isFatal <;> rfl

/-- What is done does not look whether the run is told to stop, and hands on that a call was. -/
inductive Act.Heedless : Act → Prop where
  | done : Heedless (.done v)
  | fail : Heedless (.fail e)
  | ask : q ≠ .canceled → (∀ vs, Heedless (rest vs)) → Heedless (.ask q rest)
  | property {id : Nat} : (∀ r, Heedless (rest r)) → Heedless (.property id c x rest)
  | call : rest (.error .canceled) = .fail .canceled → (∀ r, Heedless (rest r)) →
      Heedless (.call f args rest)

end Native

/-- A function of the host that does not look whether the run is told to stop. -/
def Native.Heedless (n : Native) : Prop := ∀ now args, (n.run now args).Heedless

theorem Native.standard_heedless : ∀ n ∈ Native.standard, n.Heedless := by
  intro n hn now args
  rw [List.mem_singleton.1 hn]
  exact .done

namespace Machine

theorem arity?_frees (h : free.Frees host) (v : Value) : arity? free v = arity? host v := by
  cases v with
  | native i => simp only [arity?, h.natives]
  | _ => rfl

theorem serve_free (free host : Host) (h : q ≠ .canceled) : serve free q = serve host q := by
  cases q with
  | canceled => exact absurd rfl h
  | _ => rfl

def Extends (m m' : Machine) : Prop := m.output.toList <+: m'.output.toList

theorem Extends.refl (m : Machine) : Extends m m := List.prefix_refl _

theorem Extends.trans (h : Extends m m') (h' : Extends m' m'') : Extends m m'' :=
  List.IsPrefix.trans h h'

theorem Extends.of_output (h : m'.output = m.output) : Extends m m' :=
  ⟨[], by rw [h, List.append_nil]⟩

abbrev Writes (P : Eval α) : Prop := Along Extends P

theorem writes : Lasts Extends where
  refl := .refl
  trans := .trans
  update _ := .of_output rfl
  write m t := by
    change m.output.toList <+: (m.output.push t).toList
    rw [Array.toList_push]
    exact List.prefix_append _ _
  poll _ := .of_output rfl
  apart h := h

end Machine

namespace Paced
open Machine (Extends Writes)

/-- The state that a run leaves behind. -/
def last : EStateM.Result Stop Paced α → Paced
  | .ok _ w | .error _ w => w

/-- The outcome of a run without its notes. -/
def erase : EStateM.Result Stop Paced α → EStateM.Result Stop Machine α
  | .ok a w => .ok a w.machine
  | .error e w => .error e w.machine

/-- What a host makes of a run that had these heads after some others: it lets the run go on unless it
tells it to stop at one of them, and else stops it before the first such. -/
inductive Cut (host : Host) (hs₀ hs : List Machine) (r : EStateM.Result Stop Paced α) :
    EStateM.Result Stop Paced α → Prop where
  | whole : (∀ h ∈ hs, host.tells h = false) → Cut host hs₀ hs r r
  | short : hs = before ++ h :: after → (∀ g ∈ before, host.tells g = false) →
      host.tells h = true →
      Cut host hs₀ hs r
        (.error .canceled ⟨{ h with current := f, polls := h.polls + 1 }, hs₀ ++ before⟩)

theorem Cut.first {w : Paced} {r : EStateM.Result Stop Paced α} (hi : host.tells w.machine = true) :
    Cut host w.heads (w.machine :: hs) r
      (.error .canceled { w with machine := { w.machine with polls := w.machine.polls + 1 } }) := by
  have hshort : Cut host w.heads (w.machine :: hs) r
      (.error .canceled ⟨{ w.machine with polls := w.machine.polls + 1 }, w.heads ++ []⟩) :=
    .short (List.nil_append _).symm nofun hi
  rwa [List.append_nil] at hshort

theorem Cut.later (h : Cut host (hs₀ ++ hs) hs' r q) (hn : ∀ g ∈ hs, host.tells g = false) :
    Cut host hs₀ (hs ++ hs') r q := by
  cases h with
  | whole hw =>
    refine .whole fun g hg => ?_
    rcases List.mem_append.1 hg with hg | hg
    · exact hn g hg
    · exact hw g hg
  | @short before h after f he hb hi =>
    rw [List.append_assoc]
    refine .short (by rw [he, List.append_assoc]) (fun g hg => ?_) hi
    rcases List.mem_append.1 hg with hg | hg
    · exact hn g hg
    · exact hb g hg

/-- From `w` on, a run that nobody interrupts has these heads. It only adds to what has been written,
and `q` is what the host makes of it. -/
structure Follows (host : Host) (w : Paced) (hs : List Machine)
    (r q : EStateM.Result Stop Paced α) : Prop where
  heads : (last r).heads = w.heads ++ hs
  written : w.machine.Extends (last r).machine
  between : ∀ h ∈ hs, w.machine.Extends h ∧ h.Extends (last r).machine
  cut : Cut host w.heads hs r q

/-- The second step is what the host makes of the first, which nobody interrupts. Without its notes
it is the third. -/
structure Paces (host : Host) (P P' : Pace α) (Q : Eval α) : Prop where
  follows : ∀ w, ∃ hs, Follows host w hs (P w) (P' w)
  erased : ∀ w, erase (P' w) = Q w.machine

variable {free host : Host}

theorem Follows.headless {r : EStateM.Result Stop Paced α} (hheads : (last r).heads = w.heads)
    (hwritten : w.machine.Extends (last r).machine) : Follows host w [] r r :=
  ⟨hheads.trans (List.append_nil _).symm, hwritten, nofun, .whole nofun⟩

theorem Paces.pure (a : α) : Paces host (Pure.pure a) (Pure.pure a) (Pure.pure a) where
  follows _ := ⟨[], .headless rfl (.refl _)⟩
  erased _ := rfl

theorem Paces.throw (e : Stop) :
    Paces host (MonadExcept.throw e : Pace α) (MonadExcept.throw e) (MonadExcept.throw e) where
  follows _ := ⟨[], .headless rfl (.refl _)⟩
  erased _ := rfl

theorem Paces.lift {step : Eval α} (h : Writes step) :
    Paces host (lift step) (lift step) step where
  follows w := by
    have hw := h w.machine
    unfold Machine.behind at hw
    refine ⟨[], .headless ?_ ?_⟩
    all_goals
      unfold Paced.lift
      cases hs : step w.machine with
      | ok a m | error e m =>
        rw [hs] at hw
        first | rfl | exact hw
  erased w := by
    unfold Paced.lift
    cases step w.machine with
    | ok a m | error e m => rfl

theorem erase_bind {P : Pace α} {Q : Eval α} {F : α → Pace β} {G : α → Eval β}
    (h : ∀ w, erase (P w) = Q w.machine) (hF : ∀ a w, erase (F a w) = G a w.machine) (w : Paced) :
    erase ((P >>= F) w) = (Q >>= G) w.machine := by
  have hw := h w
  change erase (EStateM.bind P F w) = EStateM.bind Q G w.machine
  unfold EStateM.bind
  rw [← hw]
  cases P w with
  | ok a w' => exact hF a w'
  | error e w' => rfl

/-- A run that goes on after the first heads, unless these cut it short. -/
theorem Follows.append {r q q' : EStateM.Result Stop Paced α} (hheads : w'.heads = w.heads ++ hs)
    (hwritten : w.machine.Extends w'.machine)
    (hbetween : ∀ h ∈ hs, w.machine.Extends h ∧ h.Extends w'.machine)
    (h : Follows host w' hs' r q') (hcut : Cut host w.heads hs q' q) :
    Follows host w (hs ++ hs') r q where
  heads := by rw [h.heads, hheads, List.append_assoc]
  written := hwritten.trans h.written
  between g hg := by
    rcases List.mem_append.1 hg with hg | hg
    · exact ⟨(hbetween g hg).1, (hbetween g hg).2.trans h.written⟩
    · exact ⟨hwritten.trans (h.between g hg).1, (h.between g hg).2⟩
  cut := by
    cases hcut with
    | whole hn =>
      have hrest := h.cut
      rw [hheads] at hrest
      exact hrest.later hn
    | short he hb hi => exact .short (by rw [he, List.append_assoc, List.cons_append]) hb hi

theorem Follows.bind {P P' : Pace α} {F F' : α → Pace β} (h : Follows host w hs (P w) (P' w))
    (hF : ∀ a w, ∃ hs, Follows host w hs (F a w) (F' a w)) :
    ∃ hs, Follows host w hs ((P >>= F) w) ((P' >>= F') w) := by
  change ∃ hs, Follows host w hs (EStateM.bind P F w) (EStateM.bind P' F' w)
  unfold EStateM.bind
  generalize P' w = q at h
  cases hp : P w with
  | error e w' =>
    rw [hp] at h
    obtain ⟨hheads, hwritten, hbetween, hcut⟩ := h
    refine ⟨hs, hheads, hwritten, hbetween, ?_⟩
    cases hcut with
    | whole hn => exact .whole hn
    | short he hb hi => exact .short he hb hi
  | ok a w' =>
    rw [hp] at h
    obtain ⟨hheads, hwritten, hbetween, hcut⟩ := h
    obtain ⟨hs', hrest⟩ := hF a w'
    refine ⟨hs ++ hs', .append hheads hwritten hbetween hrest ?_⟩
    cases hcut with
    | whole hn => exact .whole hn
    | short he hb hi => exact .short he hb hi

/-- A function of the host that hands on that a call was told to stop goes on after any other end. -/
theorem Follows.catch {P P' : Pace α} {F F' : Except Stop α → Pace β}
    (h : Follows host w hs (P w) (P' w))
    (hF : ∀ a w, ∃ hs, Follows host w hs (F a w) (F' a w))
    (hcanceled : F' (.error .canceled) = MonadExcept.throw .canceled) :
    ∃ hs, Follows host w hs ((Native.attempt P >>= F) w) ((Native.attempt P' >>= F') w) := by
  rw [Native.attempt_bind, Native.attempt_bind]
  generalize P' w = q at h
  cases hp : P w with
  | error e w' =>
    rw [hp] at h
    obtain ⟨hheads, hwritten, hbetween, hcut⟩ := h
    dsimp only
    cases he : e.isFatal with
    | true =>
      refine ⟨hs, hheads, hwritten, hbetween, ?_⟩
      cases hcut with
      | whole hn =>
        dsimp only
        rw [he]
        exact .whole hn
      | short hsplit hb hi =>
        change Cut host w.heads hs _ (F' (.error .canceled) _)
        rw [hcanceled]
        exact .short hsplit hb hi
    | false =>
      obtain ⟨hs', hrest⟩ := hF (.error e) w'
      refine ⟨hs ++ hs', .append hheads hwritten hbetween hrest ?_⟩
      cases hcut with
      | whole hn =>
        dsimp only
        rw [he]
        exact .whole hn
      | short hsplit hb hi =>
        change Cut host w.heads hs _ (F' (.error .canceled) _)
        rw [hcanceled]
        exact .short hsplit hb hi
  | ok a w' =>
    rw [hp] at h
    obtain ⟨hheads, hwritten, hbetween, hcut⟩ := h
    obtain ⟨hs', hrest⟩ := hF (.ok a) w'
    refine ⟨hs ++ hs', .append hheads hwritten hbetween hrest ?_⟩
    cases hcut with
    | whole hn => exact .whole hn
    | short hsplit hb hi =>
      change Cut host w.heads hs _ (F' (.error .canceled) _)
      rw [hcanceled]
      exact .short hsplit hb hi

theorem Paces.bind {P P' : Pace α} {Q : Eval α} {F F' : α → Pace β} {G : α → Eval β}
    (h : Paces host P P' Q) (hF : ∀ a, Paces host (F a) (F' a) (G a)) :
    Paces host (P >>= F) (P' >>= F') (Q >>= G) where
  follows w := (h.follows w).elim fun _ hfollows => hfollows.bind fun a => (hF a).follows
  erased := erase_bind h.erased fun a => (hF a).erased

theorem Paces.get {F F' : Paced → Pace α} {G : Machine → Eval α}
    (h : ∀ w, Paces host (F w) (F' w) (G w.machine)) :
    Paces host (MonadState.get >>= F) (MonadState.get >>= F') (MonadState.get >>= G) where
  follows w := (h w).follows w
  erased w := (h w).erased w

theorem Paces.ite {c : Prop} [Decidable c] {P P' R R' : Pace α} {Q S : Eval α}
    (h : Paces host P P' Q) (h' : Paces host R R' S) :
    Paces host (if c then P else R) (if c then P' else R') (if c then Q else S) := by
  split
  · exact h
  · exact h'

theorem Paces.within {P P' : Pace α} {Q : Eval α} (h : Paces host P P' Q) (f : FrameId) :
    Paces host (within f P) (within f P') (Machine.within f Q) where
  follows w := by
    obtain ⟨hs, hfollows⟩ := h.follows { w with machine := { w.machine with current := f } }
    refine ⟨hs, ?_⟩
    unfold Paced.within
    generalize P' { w with machine := { w.machine with current := f } } = q at hfollows
    cases hp : P { w with machine := { w.machine with current := f } } with
    | ok a w' | error e w' =>
      rw [hp] at hfollows
      obtain ⟨hheads, hwritten, hbetween, hcut⟩ := hfollows
      refine ⟨hheads, hwritten, hbetween, ?_⟩
      cases hcut with
      | whole hn => exact .whole hn
      | @short _ h _ _ he hb hi => exact .short (h := h) he hb hi
  erased w := by
    have he := h.erased { w with machine := { w.machine with current := f } }
    unfold Paced.within Machine.within
    dsimp only at he ⊢
    rw [← he]
    cases P' { w with machine := { w.machine with current := f } } with
    | ok a w' | error e w' => rfl

theorem begin_bind (P : Pace α) (w : Paced) :
    (begin host >>= fun _ => P) w =
      if host.tells w.machine then
        .error .canceled { w with machine := { w.machine with polls := w.machine.polls + 1 } }
      else P ⟨{ w.machine with polls := w.machine.polls + 1 }, w.heads ++ [w.machine]⟩ := by
  have hheed : lift (Machine.heed host) w = if host.tells w.machine then
        .error .canceled { w with machine := { w.machine with polls := w.machine.polls + 1 } }
      else .ok () { w with machine := { w.machine with polls := w.machine.polls + 1 } } := by
    unfold lift Host.tells
    rw [Machine.heed_apply]
    cases host.signal w.machine.polls w.machine.output with
    | true => rfl
    | false => rfl
  change EStateM.bind (EStateM.bind (lift (Machine.heed host)) _) (fun _ => P) w = _
  unfold EStateM.bind
  rw [hheed]
  cases host.tells w.machine with
  | true => rfl
  | false => rfl

theorem Paces.begin {P P' : Pace α} {Q : Eval α} (hfree : free.Frees host)
    (h : Paces host P P' Q) :
    Paces host (begin free >>= fun _ => P) (begin host >>= fun _ => P')
      (Machine.heed host >>= fun _ => Q) where
  follows w := by
    obtain ⟨hs, hheads, hwritten, hbetween, hcut⟩ :=
      h.follows ⟨{ w.machine with polls := w.machine.polls + 1 }, w.heads ++ [w.machine]⟩
    have hgo : ¬ free.tells w.machine = true := Bool.eq_false_iff.1 (hfree.never _ _)
    rw [begin_bind, begin_bind, if_neg hgo]
    refine ⟨w.machine :: hs, hheads.trans (List.append_assoc _ _ _), hwritten, fun g hg => ?_, ?_⟩
    · rcases List.mem_cons.1 hg with rfl | hg
      · exact ⟨.refl _, hwritten⟩
      · exact hbetween g hg
    · by_cases hi : host.tells w.machine
      · rw [if_pos hi]
        exact .first hi
      · rw [if_neg hi]
        have hn : ∀ g ∈ [w.machine], host.tells g = false := fun g hg =>
          List.mem_singleton.1 hg ▸ Bool.eq_false_iff.2 hi
        exact hcut.later hn
  erased w := by
    rw [begin_bind]
    change _ = EStateM.bind (Machine.heed host) (fun _ => Q) w.machine
    unfold EStateM.bind
    rw [Machine.heed_apply, ← Host.tells]
    by_cases hi : host.tells w.machine
    · rw [if_pos hi, if_pos hi]
      rfl
    · rw [if_neg hi, if_neg hi]
      exact h.erased _

/-- With this many steps every function of the evaluator does what the host makes of the run that
nobody interrupts. -/
structure Paceable (free host : Host) (n : Nat) : Prop where
  evaluate : ∀ e, Paces host (evaluate free n e) (evaluate host n e) (Machine.evaluate host n e)
  arguments : ∀ es,
    Paces host (arguments free n es) (arguments host n es) (Machine.arguments host n es)
  call : ∀ v args, Paces host (call free n v args) (call host n v args) (Machine.call host n v args)
  invoke : ∀ f args,
    Paces host (invoke free n f args) (invoke host n f args) (Machine.invoke host n f args)
  run : ∀ ss, Paces host (run free n ss) (run host n ss) (Machine.run host n ss)
  execute : ∀ s, Paces host (execute free n s) (execute host n s) (Machine.execute host n s)
  loop : ∀ c s, Paces host (loop free n c s) (loop host n c s) (Machine.loop host n c s)

theorem Paceable.zero : Paceable free host 0 where
  evaluate _ := .throw _
  arguments _ := .throw _
  call _ _ := .throw _
  invoke _ _ := .throw _
  run _ := .throw _
  execute _ := .throw _
  loop _ _ := .throw _

theorem Paces.fault (token : Token) (message : Text) :
    Paces host (Paced.lift (Machine.fault token message) : Pace α)
      (Paced.lift (Machine.fault token message)) (Machine.fault token message) :=
  .lift (Machine.writes.fault token message)

theorem Paces.crash (c : Crash) :
    Paces host (Paced.lift (Machine.crash c) : Pace α) (Paced.lift (Machine.crash c))
      (Machine.crash c) :=
  .lift (Machine.writes.crash c)

theorem evaluate_paces (hfree : free.Frees host) (ih : Paceable free host n) (e : Expr Distance) :
    Paces host (evaluate free (n + 1) e) (evaluate host (n + 1) e)
      (Machine.evaluate host (n + 1) e) := by
  cases e with
  | literal v => exact .pure _
  | grouping e => exact ih.evaluate e
  | unary op e =>
    exact (ih.evaluate e).bind fun v => .lift (Machine.writes.negate op v)
  | binary l op r =>
    apply (ih.evaluate l).bind
    intro left
    exact (ih.evaluate r).bind fun right => .lift (Machine.writes.combine op left right)
  | logical l op r =>
    exact (ih.evaluate l).bind fun left => .ite (.pure left) (ih.evaluate r)
  | var ref | this ref => exact .lift (Machine.writes.lookUp _ _)
  | assign ref e =>
    apply (ih.evaluate e).bind
    intro v
    exact (Paces.lift (Machine.writes.assign _ _ v)).bind fun _ => .pure v
  | call f paren args =>
    apply (ih.evaluate f).bind
    intro callee
    apply (ih.arguments args).bind
    intro values
    rw [Machine.arity?_frees hfree]
    cases Machine.arity? host callee with
    | none => exact .fault _ _
    | some k => exact .ite (ih.call callee values) (.fault _ _)
  | get o name =>
    apply (ih.evaluate o).bind
    intro v
    cases v with
    | object id c => exact .lift (Machine.writes.property id c name)
    | _ => exact .fault _ _
  | set o name e =>
    apply (ih.evaluate o).bind
    intro v
    cases v with
    | object id c =>
      apply (ih.evaluate e).bind
      intro u
      exact (Paces.lift (Machine.writes.modify fun _ => .setField id name.lexeme u)).bind
        fun _ => .pure u
    | _ => exact .fault _ _
  | super ref method => exact .lift (Machine.writes.superMethod _ _)

theorem arguments_paces (ih : Paceable free host n) (es : List (Expr Distance)) :
    Paces host (arguments free (n + 1) es) (arguments host (n + 1) es)
      (Machine.arguments host (n + 1) es) := by
  cases es with
  | nil => exact .pure _
  | cons e es => exact (ih.evaluate e).bind fun _ => (ih.arguments es).bind fun _ => .pure _

theorem Paces.catch {P P' : Pace α} {Q : Eval α} {F F' : Except Stop α → Pace β}
    {G : Except Stop α → Eval β} (h : Paces host P P' Q)
    (hF : ∀ a, Paces host (F a) (F' a) (G a))
    (hcanceled : F' (.error .canceled) = MonadExcept.throw .canceled) :
    Paces host (Native.attempt P >>= F) (Native.attempt P' >>= F') (Native.attempt Q >>= G) where
  follows w :=
    (h.follows w).elim fun _ hfollows => hfollows.catch (fun a => (hF a).follows) hcanceled
  erased := by
    refine erase_bind (fun w => ?_) fun a => (hF a).erased
    unfold Native.attempt
    rw [← h.erased w]
    cases P' w with
    | ok a w' => rfl
    | error e w' =>
      dsimp only [erase]
      cases e.isFatal <;> rfl

theorem attempt_lift (step : Eval α) :
    Native.attempt (lift step) = lift (Native.attempt step) := by
  funext w
  unfold Native.attempt lift
  dsimp only
  cases step w.machine with
  | ok a m => rfl
  | error e m =>
    dsimp only
    cases e.isFatal <;> rfl

theorem act_paces (free host : Host) {act : Native.Act} {callF callH : Value → List Value → Pace Value}
    {callM : Value → List Value → Eval Value}
    (hcall : ∀ v args, Paces host (callF v args) (callH v args) (callM v args))
    (h : act.Heedless) :
    Paces host
      (act.perform (fun q => lift (Machine.serve free q))
        (fun id c x => lift (Machine.property id c x)) callF)
      (act.perform (fun q => lift (Machine.serve host q))
        (fun id c x => lift (Machine.property id c x)) callH)
      (act.perform (Machine.serve host) Machine.property callM) := by
  induction h with
  | done => exact .pure _
  | fail => exact .throw _
  | ask hq _ ih =>
    rw [Native.Act.perform, Machine.serve_free free host hq]
    exact (Paces.lift (Machine.writes.serve _)).bind ih
  | property _ ih =>
    simp only [Native.Act.perform, attempt_lift]
    exact (Paces.lift (Machine.writes.property _ _ _).caught).bind ih
  | call hcanceled _ ih =>
    refine (hcall _ _).catch ih ?_
    rw [hcanceled]
    rfl

theorem call_paces (hN : ∀ n ∈ host.natives, n.Heedless) (hfree : free.Frees host)
    (ih : Paceable free host n) (v : Value) (args : List Value) :
    Paces host (call free (n + 1) v args) (call host (n + 1) v args)
      (Machine.call host (n + 1) v args) := by
  cases v with
  | function f => exact ih.invoke f args
  | klass c =>
    rw [call, call, Machine.call]
    apply (Paces.lift Machine.writes.newObject).bind
    intro id
    cases c.initializer? with
    | some init =>
      apply (Paces.lift (Machine.writes.bindMethod init _)).bind
      intro bound
      exact (ih.invoke bound args).bind fun _ => .pure _
    | none => exact .pure _
  | native i =>
    rw [call, call, Machine.call, hfree.natives, hfree.now]
    cases hi : host.natives[i]? with
    | none => exact .crash _
    | some native =>
      exact act_paces free host ih.call (hN native (List.mem_of_getElem? hi) host.now args)
  | _ => exact .crash _

theorem invoke_paces (ih : Paceable free host n) (f : Closure) (args : List Value) :
    Paces host (invoke free (n + 1) f args) (invoke host (n + 1) f args)
      (Machine.invoke host (n + 1) f args) := by
  rw [invoke, invoke, Machine.invoke]
  apply (Paces.lift (Machine.writes.newFrame f.frame)).bind
  intro frame
  apply (Paces.lift (Machine.writes.bindParams frame f.routine.params args)).bind
  intro _
  apply ((ih.run f.routine.body).within frame).bind
  intro done
  apply Paces.ite
  · apply Paces.get
    intro w
    cases w.machine.store.getAt? f.frame 0 "this" with
    | some v => exact .pure v
    | none => exact .crash _
  · cases done with
    | returned v => exact .pure v
    | normal => exact .pure _

theorem run_paces (ih : Paceable free host n) (ss : List (Stmt Distance)) :
    Paces host (run free (n + 1) ss) (run host (n + 1) ss)
      (Machine.run host (n + 1) ss) := by
  cases ss with
  | nil => exact .pure _
  | cons s ss =>
    apply (ih.execute s).bind
    intro done
    cases done with
    | normal => exact ih.run ss
    | returned v => exact .pure _

theorem execute_paces (ih : Paceable free host n) (s : Stmt Distance) :
    Paces host (execute free (n + 1) s) (execute host (n + 1) s)
      (Machine.execute host (n + 1) s) := by
  cases s with
  | expression e => exact (ih.evaluate e).bind fun _ => .pure _
  | print e =>
    apply (ih.evaluate e).bind
    intro v
    exact (Paces.lift (Machine.writes.print v)).bind fun _ => .pure _
  | varDecl x init =>
    cases init
    case' some e => apply (ih.evaluate e).bind
    case' none => apply (Paces.pure Value.nil).bind
    all_goals
      intro v
      apply Paces.get
      intro w
      exact (Paces.lift (Machine.writes.bindVariable _ x.lexeme v)).bind fun _ => .pure _
  | block body =>
    apply Paces.get
    intro w
    apply (Paces.lift (Machine.writes.newFrame _)).bind
    intro frame
    exact (ih.run body).within frame
  | ifThen c s =>
    apply (ih.evaluate c).bind
    intro v
    exact .ite (ih.execute s) (.pure _)
  | ifElse c s t =>
    apply (ih.evaluate c).bind
    intro v
    exact .ite (ih.execute s) (ih.execute t)
  | loop c s => exact ih.loop c s
  | funDecl r =>
    apply Paces.get
    intro w
    apply (Paces.lift (Machine.writes.close r _ false)).bind
    intro f
    exact (Paces.lift (Machine.writes.bindVariable _ r.name.lexeme _)).bind fun _ =>
      .pure _
  | ret keyword value =>
    cases value with
    | some e => exact (ih.evaluate e).bind fun v => .pure _
    | none => exact .pure _
  | classDecl x sup methods =>
    have hrest (c : Option Class) : Paces host
        (Paced.lift (Machine.declareClass x c methods) >>= fun _ => Pure.pure Completion.normal)
        (Paced.lift (Machine.declareClass x c methods) >>= fun _ => Pure.pure Completion.normal)
        (Machine.declareClass x c methods >>= fun _ => Pure.pure Completion.normal) :=
      (Paces.lift (Machine.writes.declareClass x c methods)).bind fun _ => .pure _
    cases sup with
    | none => exact hrest none
    | some ref =>
      apply (ih.evaluate (.var ref)).bind
      intro v
      cases v with
      | klass c => exact hrest (some c)
      | _ => exact (Paces.fault _ _).bind hrest

theorem loop_paces (hfree : free.Frees host) (ih : Paceable free host n) (c : Expr Distance)
    (s : Stmt Distance) :
    Paces host (loop free (n + 1) c s) (loop host (n + 1) c s)
      (Machine.loop host (n + 1) c s) := by
  rw [loop, loop, Machine.loop]
  apply Paces.begin hfree
  apply (ih.evaluate c).bind
  intro v
  refine .ite ((ih.execute s).bind fun done => ?_) (.pure _)
  cases done with
  | normal => exact ih.loop c s
  | returned u => exact .pure _

theorem paceable (hN : ∀ n ∈ host.natives, n.Heedless) (hfree : free.Frees host) (n : Nat) :
    Paceable free host n := by
  induction n with
  | zero => exact .zero
  | succ n ih =>
    exact {
      evaluate := evaluate_paces hfree ih
      arguments := arguments_paces ih
      call := call_paces hN hfree ih
      invoke := invoke_paces ih
      run := run_paces ih
      execute := execute_paces ih
      loop := loop_paces hfree ih }

theorem statements_paces (hN : ∀ n ∈ host.natives, n.Heedless) (hfree : free.Frees host)
    (steps : Nat) (ss : List (Stmt Distance)) :
    Paces host (statements free steps ss) (statements host steps ss)
      (Machine.statements host steps ss) := by
  induction ss with
  | nil => exact .pure _
  | cons s ss ih =>
    rw [statements, statements, Machine.statements]
    apply Paces.begin hfree
    exact ((paceable hN hfree steps).execute s).bind fun _ => ih

end Paced

end LoxLang
