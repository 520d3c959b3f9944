import LoxLang.Proofs.Machine.Retained
import LoxLang.Proofs.Tree.Written

namespace LoxLang
set_option autoImplicit true

inductive Class.Named : Class → Prop where
  | mk {ms : Dict Closure} :
      (∀ e ∈ ms, e.1.AllWord ∧ Stmt.WrittenRoutine e.2.routine) →
      (∀ c ∈ parent, Class.Named c) → Class.Named (.mk n x parent ms)

def Value.Named : Value → Prop
  | .function f => Stmt.WrittenRoutine f.routine
  | .klass c | .object _ c => c.Named
  | .nil | .bool _ | .number _ | .string _ | .native _ | .absent => True

def Dict.Named (d : Dict Value) : Prop := ∀ e ∈ d, e.1.AllWord ∧ e.2.Named

structure Store.Named (s : Store) : Prop where
  vars : ∀ f, (s.vars f).Named
  fields : ∀ id, (s.fields id).Named

/-- A function of the host that names things by words only, given such values. -/
def Native.Named (n : Native) : Prop :=
  ∀ now args, (∀ a ∈ args, Value.Named a) → (n.run now args).Only Text.AllWord Value.Named

def Completion.Named : Completion → Prop
  | .normal => True
  | .returned v => v.Named

theorem Class.Named.method {c : Class} (h : c.Named) (hm : c.findMethod x = some m) :
    Stmt.WrittenRoutine m.routine := by
  induction h with
  | mk hms _ ih =>
    unfold findMethod at hm
    split at hm
    · rename_i hget
      cases hm
      exact (hms _ (Dict.mem_of_get? hget)).2
    · split at hm
      · exact ih _ rfl hm
      · cases hm

theorem Class.Named.allMethods {c : Class} (h : c.Named) : ∀ x ∈ c.allMethods, x.AllWord := by
  induction h with
  | @mk parent n x ms hms _ ih =>
    intro y hy
    unfold Class.allMethods at hy
    rcases List.mem_append.1 hy with hy | hy
    · obtain ⟨e, he, rfl⟩ := List.mem_map.1 hy
      exact (hms e he).1
    · cases parent with
      | none => exact absurd hy List.not_mem_nil
      | some c => exact ih c rfl y hy

theorem Class.Named.methodNames {c : Class} (h : c.Named) : ∀ x ∈ c.methodNames, x.AllWord :=
  fun x hx => h.allMethods x (List.mem_eraseDups.1 (List.mem_mergeSort.1 hx))

theorem Store.named_iff {s : Store} : s.Named ↔ s.Only Text.AllWord Value.Named :=
  ⟨fun h => ⟨h.vars, h.fields⟩, fun h => ⟨h.vars, h.fields⟩⟩

theorem this_allWord : Text.AllWord "this" := by
  decide +kernel

theorem super_allWord : Text.AllWord "super" := by
  decide +kernel

theorem Value.named : Stock Text.AllWord Value.Named where
  nil := trivial
  bool _ := trivial
  number _ := trivial
  string _ := trivial
  this := this_allWord
  super := super_allWord
  object _ := id
  method hc hf := Class.Named.method hc hf
  bound _ _ := id
  made _ _ hms hparent := .mk hms hparent

namespace Machine

/-- A step keeps names to words, and its result is of this kind. -/
def Naming (R : α → Prop) (P : Eval α) : Prop := ∀ m, m.store.Named → match P m with
  | .ok a m' => m'.store.Named ∧ R a
  | .error _ m' => m'.store.Named

theorem naming_iff {R : α → Prop} {P : Eval α} :
    Naming R P ↔ Retains Text.AllWord Value.Named R P := by
  apply forall_congr'
  intro m
  rw [Store.named_iff]
  cases P m with
  | ok a m' =>
    dsimp only
    rw [Store.named_iff]
  | error e m' =>
    dsimp only
    rw [Store.named_iff]

theorem Retains.naming {R : α → Prop} {P : Eval α} (h : Retains Text.AllWord Value.Named R P) :
    Naming R P := naming_iff.2 h

theorem Naming.pure {R : α → Prop} (h : R a) : Naming R (Pure.pure a) := (Retains.pure h).naming

theorem Naming.throw (e : Stop) : Naming (α := α) R (MonadExcept.throw e) :=
  (Retains.throw e).naming

theorem Naming.bind {R : α → Prop} {S : β → Prop} {P : Eval α} {F : α → Eval β} (h : Naming R P)
    (hF : ∀ a, R a → Naming S (F a)) : Naming S (P >>= F) :=
  ((naming_iff.1 h).bind fun a ha => naming_iff.1 (hF a ha)).naming

theorem Naming.map {R : α → Prop} {S : β → Prop} {P : Eval α} {f : α → β} (h : Naming R P)
    (hf : ∀ a, R a → S (f a)) : Naming S (P >>= fun a => Pure.pure (f a)) :=
  h.bind fun a ha => .pure (hf a ha)

theorem Naming.get {S : β → Prop} {F : Machine → Eval β}
    (h : ∀ m, m.store.Only Text.AllWord Value.Named → Naming S (F m)) :
    Naming S (MonadState.get >>= F) :=
  (Retains.get fun m hm => naming_iff.1 (h m hm)).naming

theorem Naming.within {R : α → Prop} {P : Eval α} (h : Naming R P) (f : FrameId) :
    Naming R (within f P) := ((naming_iff.1 h).within f).naming

theorem methods_written {rs : List (Routine (Stmt Distance))} (h : Stmt.WrittenRoutines rs) :
    (∀ r ∈ rs, r.name.lexeme.AllWord) ∧ Stmt.Methods Value.Named rs := by
  induction rs with
  | nil => exact ⟨fun r hr => absurd hr List.not_mem_nil, fun r hr => absurd hr List.not_mem_nil⟩
  | cons r rs ih =>
    obtain ⟨hr, hrs⟩ := h
    obtain ⟨hnames, hmethods⟩ := ih hrs
    have hname : r.name.lexeme.AllWord := by
      obtain ⟨name, params, body⟩ := r
      exact hr.1.2.allWord
    exact ⟨List.forall_mem_cons.2 ⟨hname, hnames⟩,
      List.forall_mem_cons.2 ⟨fun _ _ => hr, hmethods⟩⟩

variable {host : Host}

structure Names (host : Host) (n : Nat) : Prop where
  evaluate : ∀ {e : Expr Distance}, e.Written → Naming Value.Named (evaluate host n e)
  arguments : ∀ {es : List (Expr Distance)}, Expr.WrittenAll es →
    Naming (fun vs => ∀ v ∈ vs, v.Named) (arguments host n es)
  call : ∀ {v args}, Value.Named v → (∀ a ∈ args, Value.Named a) →
    Naming Value.Named (call host n v args)
  invoke : ∀ {f : Closure} {args}, Stmt.WrittenRoutine f.routine →
    (∀ a ∈ args, Value.Named a) → Naming Value.Named (invoke host n f args)
  run : ∀ {ss : List (Stmt Distance)}, Stmt.WrittenAll ss →
    Naming Completion.Named (run host n ss)
  execute : ∀ {s : Stmt Distance}, s.Written → Naming Completion.Named (execute host n s)
  loop : ∀ {c : Expr Distance} {s : Stmt Distance}, c.Written → s.Written →
    Naming Completion.Named (loop host n c s)

theorem Names.zero : Names host 0 where
  evaluate _ := .throw _
  arguments _ := .throw _
  call _ _ := .throw _
  invoke _ _ := .throw _
  run _ := .throw _
  execute _ := .throw _
  loop _ _ := .throw _

theorem Names.evaluate_succ (ih : Names host n) {e : Expr Distance} (he : e.Written) :
    Naming Value.Named (Machine.evaluate host (n + 1) e) := by
  cases e with
  | literal v =>
    apply Naming.pure
    rcases v with _ | ⟨b⟩ | ⟨x⟩ | ⟨t⟩ <;> trivial
  | grouping e => exact ih.evaluate he
  | unary op e => exact (ih.evaluate he.2).bind fun v _ => (Value.named.negate op v).naming
  | binary l op r =>
    exact (ih.evaluate he.2.1).bind fun v _ => (ih.evaluate he.2.2).bind fun w _ =>
      (Value.named.combine op v w).naming
  | logical l op r =>
    refine (ih.evaluate he.2.1).bind fun v hv => ?_
    split
    · exact .pure hv
    · exact ih.evaluate he.2.2
  | var ref => exact (Value.named.lookUp _ _).naming
  | assign ref e =>
    exact (ih.evaluate he.2).bind fun v hv =>
      (Stock.assign he.1.2.allWord hv _).naming.map fun _ _ => hv
  | call f paren args =>
    refine (ih.evaluate he.2.1).bind fun v hv => (ih.arguments he.2.2).bind fun vs hvs => ?_
    split
    · exact .throw _
    · split
      · exact ih.call hv hvs
      · exact .throw _
  | get o x =>
    refine (ih.evaluate he.2).bind fun v hv => ?_
    split
    · exact (Value.named.property hv _ x).naming
    · exact .throw _
  | set o x e =>
    refine (ih.evaluate he.2.1).bind fun v _ => ?_
    split
    · refine (ih.evaluate he.2.2).bind fun w hw => ?_
      exact (Retains.modify fun m hm => hm.setField he.1.2.allWord hw _).naming.map fun _ _ => hw
    · exact .throw _
  | this ref => exact (Value.named.lookUp _ _).naming
  | super ref x => exact (Value.named.superMethod _ x).naming

theorem Names.arguments_succ (ih : Names host n) {es : List (Expr Distance)}
    (hes : Expr.WrittenAll es) :
    Naming (fun vs => ∀ v ∈ vs, v.Named) (Machine.arguments host (n + 1) es) := by
  cases es with
  | nil => exact .pure fun v hv => absurd hv List.not_mem_nil
  | cons e es =>
    exact (ih.evaluate hes.1).bind fun v hv =>
      (ih.arguments hes.2).map fun vs hvs => List.forall_mem_cons.2 ⟨hv, hvs⟩

theorem Names.call_succ (hhost : ∀ f ∈ host.natives, f.Named) (ih : Names host n)
    (hv : Value.Named v) (hargs : ∀ a ∈ args, Value.Named a) :
    Naming Value.Named (Machine.call host (n + 1) v args) := by
  cases v with
  | function f => exact ih.invoke hv hargs
  | klass c =>
    refine Stock.newObject.naming.bind fun _ _ => ?_
    split
    · rename_i init hinit
      have hinit' : Stmt.WrittenRoutine init.routine := Class.Named.method hv hinit
      exact (Value.named.bindMethod (v := .object _ c) hinit' hv).naming.bind fun g hg =>
        (ih.invoke hg hargs).map fun _ _ => hv
    · exact .pure hv
  | native i =>
    rw [Machine.call]
    split
    · rename_i f hf
      have honly := hhost f (List.mem_of_getElem? hf) host.now args hargs
      exact (Value.named.act (fun hv ha => naming_iff.1 (ih.call hv ha)) honly).naming
    · exact .throw _
  | nil | bool | number | string | object | absent => exact .throw _

theorem Names.invoke_succ (ih : Names host n) {f : Closure} (hf : Stmt.WrittenRoutine f.routine)
    (hargs : ∀ a ∈ args, Value.Named a) :
    Naming Value.Named (Machine.invoke host (n + 1) f args) := by
  obtain ⟨serial, ⟨name, params, body⟩, frame, isInitializer⟩ := f
  refine (Stock.newFrame frame).naming.bind fun g _ =>
    (Stock.bindParams (fun p hp => (hf.2.1 p hp).2.allWord) hargs g).naming.bind fun _ _ =>
    ((ih.run hf.2.2).within g).bind fun done hdone => ?_
  split
  · refine .get fun m hm => ?_
    split
    · rename_i v hv
      exact .pure (Value.named.getAt? hm hv)
    · exact .throw _
  · split
    · exact .pure hdone
    · exact .pure trivial

theorem Names.run_succ (ih : Names host n) {ss : List (Stmt Distance)} (hss : Stmt.WrittenAll ss) :
    Naming Completion.Named (Machine.run host (n + 1) ss) := by
  cases ss with
  | nil => exact .pure trivial
  | cons s ss =>
    refine (ih.execute hss.1).bind fun done hdone => ?_
    split
    · exact ih.run hss.2
    · exact .pure hdone

theorem Names.execute_succ (ih : Names host n) {s : Stmt Distance} (hs : s.Written) :
    Naming Completion.Named (Machine.execute host (n + 1) s) := by
  cases s with
  | expression e => exact (ih.evaluate hs).map fun _ _ => trivial
  | print e =>
    exact (ih.evaluate hs).bind fun v _ => (Stock.print v).naming.map fun _ _ => trivial
  | varDecl x init =>
    have hfinish {v : Value} (hv : v.Named) : Naming Completion.Named (do
        bindVariable (← get).current x.lexeme v
        return .normal) :=
      .get fun m _ => (Stock.bindVariable hs.1.2.allWord hv m.current).naming.map fun _ _ => trivial
    cases init with
    | none => exact hfinish (v := .nil) trivial
    | some e => exact (ih.evaluate (hs.2 e rfl)).bind fun v hv => hfinish hv
  | block body =>
    exact .get fun m _ => (Stock.newFrame m.current).naming.bind fun f _ => (ih.run hs).within f
  | ifThen c s =>
    refine (ih.evaluate hs.1).bind fun v _ => ?_
    split
    · exact ih.execute hs.2
    · exact .pure trivial
  | ifElse c s t =>
    refine (ih.evaluate hs.1).bind fun v _ => ?_
    split
    · exact ih.execute hs.2.1
    · exact ih.execute hs.2.2
  | loop c s => exact ih.loop hs.1 hs.2
  | funDecl r =>
    have hname : r.name.lexeme.AllWord := by
      obtain ⟨name, params, body⟩ := r
      exact hs.1.2.allWord
    exact .get fun m _ => (Stock.close (V := Value.Named) fun _ => hs).naming.bind fun g hg =>
      (Stock.bindVariable (v := .function g) hname hg m.current).naming.map fun _ _ => trivial
  | ret word value =>
    cases value with
    | none => exact .pure trivial
    | some e => exact (ih.evaluate (hs.2 e rfl)).map fun _ hv => hv
  | classDecl x sup methods =>
    obtain ⟨hx, hsup, hwritten⟩ := hs
    obtain ⟨hnames, hmethods⟩ := methods_written hwritten
    cases sup with
    | none =>
      exact (Value.named.declareClass hx.2.allWord (fun c hc => by cases hc) hnames
        hmethods).naming.map fun _ _ => trivial
    | some ref =>
      refine (ih.evaluate (e := .var ref) (hsup ref rfl)).bind fun v hv => ?_
      cases v with
      | klass c =>
        refine (Value.named.declareClass hx.2.allWord (fun d hd => ?_) hnames hmethods).naming.map
          fun _ _ => trivial
        cases hd
        exact hv
      | _ => exact .throw _

theorem Names.loop_succ (ih : Names host n) {c : Expr Distance} {s : Stmt Distance}
    (hc : c.Written) (hs : s.Written) : Naming Completion.Named (Machine.loop host (n + 1) c s) := by
  refine (Stock.heed host).naming.bind fun _ _ => (ih.evaluate hc).bind fun v _ => ?_
  split
  · refine (ih.execute hs).bind fun done hdone => ?_
    split
    · exact ih.loop hc hs
    · exact .pure hdone
  · exact .pure trivial

theorem names (hhost : ∀ f ∈ host.natives, f.Named) (n : Nat) : Names host n := by
  induction n with
  | zero => exact .zero
  | succ n ih =>
    exact {
      evaluate := ih.evaluate_succ
      arguments := ih.arguments_succ
      call := ih.call_succ hhost
      invoke := ih.invoke_succ
      run := ih.run_succ
      execute := ih.execute_succ
      loop := ih.loop_succ }

end Machine

end LoxLang
