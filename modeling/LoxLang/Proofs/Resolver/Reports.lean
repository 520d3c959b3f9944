import LoxLang.Proofs.Resolver.Rules
import LoxLang.Proofs.Resolver.Run
import LoxLang.Proofs.Resolver.Sound

namespace LoxLang

namespace Resolver
set_option autoImplicit true

variable {K K' : Surroundings} {outer : List Scope} {r r' r'' : Resolver}

/-- The innermost scope has the names that the text declares, all ready but the one that is being
initialized. -/
inductive Shows (names : Option (List Text)) (pending : Option Text) (outer : List Scope) :
    List Scope → Prop where
  | global : names = none → Shows names pending outer []
  | local : names = some xs → Lists s xs →
      (∀ x, Dict.get? s x = some false ↔ pending = some x) →
      Shows names pending outer (s :: outer)

/-- The resolver stands where the text says, with these scopes around the innermost one. -/
structure Situated (K : Surroundings) (outer : List Scope) (r : Resolver) : Prop where
  scopes : Shows K.names K.pending outer r.scopes
  body : r.body = K.body
  home : r.home = K.home

/-- On the way from one state to another these faults are reported. -/
structure Tells (K : Surroundings) (outer : List Scope) (ds : List Diagnostic)
    (r r' : Resolver) : Prop where
  faults : r'.diagnostics = r.diagnostics ++ ds
  state : Situated K outer r'

theorem Situated.nothing (h : Situated K outer r) : Tells K outer [] r r :=
  ⟨(List.append_nil _).symm, h⟩

theorem Tells.trans (h : Tells K outer ds r r') (h' : Tells K' outer es r' r'') :
    Tells K' outer (ds ++ es) r r'' :=
  ⟨by rw [h'.faults, h.faults, List.append_assoc], h'.state⟩

theorem Situated.congr (h : Situated K outer r) (hs : r'.scopes = r.scopes)
    (hb : r'.body = r.body) (hh : r'.home = r.home) : Situated K outer r' :=
  ⟨hs ▸ h.scopes, hb.trans h.body, hh.trans h.home⟩

theorem tells_place (h : Situated K outer r) (site : Site) (hs : r'.scopes = r.scopes)
    (hb : r'.body = r.body) (hh : r'.home = r.home)
    (hd : r'.diagnostics = r.diagnostics ++ (Place.fault? ⟨K, site⟩).toList) :
    Tells K outer (faults [⟨K, site⟩]) r r' := by
  refine ⟨hd.trans ?_, h.congr hs hb hh⟩
  rw [Resolver.faults, List.filterMap_cons]
  cases Place.fault? ⟨K, site⟩ <;> rfl

theorem bind_state (node : Expr Mark) (ref : Reference Mark) (r : Resolver) :
    ∃ bs, (bind node ref r).2 = { r with bindings := bs } := by
  obtain ⟨bs, hb⟩ := bind_run node ref r
  exact ⟨bs, congrArg Prod.snd hb⟩

theorem Shows.unready (h : Shows K.names K.pending outer ss) (x : Text) :
    Dict.get? (ss.head?.getD []) x = some false ↔ K.names.isSome ∧ K.pending = some x := by
  cases h with
  | global hn => simp [hn]
  | «local» hn _ hr => simp [hn, hr]

theorem Shows.has (h : Shows K.names K.pending outer ss) (x : Text) :
    Dict.has (ss.head?.getD []) x ↔ x ∈ K.names.getD [] := by
  cases h with
  | global hn => simp [hn, Dict.has]
  | «local» hn hs _ => simp [hn, hs x]

theorem read_tells (h : Situated K outer r) (ref : Reference Mark) :
    Tells K outer (faults [⟨K, .reading ref.name⟩]) r (read ref r).2 := by
  rw [read_run]
  obtain ⟨bs, hb⟩ := bind_state (.var ref) ref
    (if Dict.get? (r.scopes.head?.getD []) ref.name.lexeme = some false then
      (report ref.name "Can't read local variable in its own initializer." r).2 else r)
  rw [hb]
  simp only [h.scopes.unready]
  by_cases hx : K.names.isSome ∧ K.pending = some ref.name.lexeme
  · simp only [if_pos hx]
    refine tells_place h _ rfl rfl rfl ?_
    simp only [Place.fault?, Place.breach?, if_pos hx]
    rfl
  · simp only [if_neg hx]
    refine tells_place h _ rfl rfl rfl ?_
    simp [Place.fault?, Place.breach?, hx]

theorem this_tells (h : Situated K outer r) (ref : Reference Mark) :
    Tells K outer (faults [⟨K, .this ref.name⟩]) r (this ref r).2 := by
  have hhome := h.home
  unfold this
  rw [run_bind, run_get]
  dsimp only
  cases hr : r.home with
  | none =>
    refine tells_place h _ rfl rfl rfl ?_
    simp only [Place.fault?, Place.breach?, ← hhome, hr]
    rfl
  | plain | derived =>
    obtain ⟨bs, hb⟩ := bind_state (.this ref) ref r
    dsimp only
    rw [hb]
    refine tells_place h _ rfl rfl rfl ?_
    simp [Place.fault?, Place.breach?, ← hhome, hr]

theorem super_tells (h : Situated K outer r) (ref : Reference Mark) (method : Token) :
    Tells K outer (faults [⟨K, .super ref.name⟩]) r (super ref method r).2 := by
  have hhome := h.home
  unfold super
  rw [run_bind, run_get]
  dsimp only
  cases hr : r.home with
  | none | plain =>
    refine tells_place h _ rfl rfl rfl ?_
    simp only [Place.fault?, Place.breach?, ← hhome, hr]
    rfl
  | derived =>
    obtain ⟨bs, hb⟩ := bind_state (.super ref method) ref r
    dsimp only
    rw [hb]
    refine tells_place h _ rfl rfl rfl ?_
    simp [Place.fault?, Place.breach?, ← hhome, hr]

theorem checkReturn_tells (h : Situated K outer r) (word : Token)
    (value : Option (Expr Mark)) :
    Tells K outer (faults [⟨K, .ret word value.isSome⟩]) r (checkReturn word value r).2 := by
  have hbody := h.body
  rw [checkReturn_run]
  cases hr : r.body with
  | none =>
    simp only [reduceCtorEq, and_false, if_false, if_true]
    refine tells_place h _ rfl rfl rfl ?_
    simp only [Place.fault?, Place.breach?, ← hbody, hr]
    rfl
  | function | method =>
    simp only [reduceCtorEq, and_false, if_false]
    refine tells_place h _ rfl rfl rfl ?_
    simp only [Place.fault?, Place.breach?, ← hbody, hr]
    exact (List.append_nil _).symm
  | initializer =>
    simp only [reduceCtorEq, and_true, if_false]
    cases value with
    | none =>
      refine tells_place h _ rfl rfl rfl ?_
      simp only [Place.fault?, Place.breach?, ← hbody, hr]
      exact (List.append_nil _).symm
    | some e =>
      refine tells_place h _ rfl rfl rfl ?_
      simp only [Place.fault?, Place.breach?, ← hbody, hr]
      rfl

theorem declare_tells (h : Situated K outer r) (hp : K.pending = none) (x : Token) :
    Tells (K.initializing x.lexeme) outer (faults [⟨K, .declaration x⟩]) r (declare x r).2 := by
  have htold : Tells K outer (faults [⟨K, .declaration x⟩]) r
      (if Dict.has (r.scopes.head?.getD []) x.lexeme then
        (report x "Already a variable with this name in this scope." r).2 else r) := by
    simp only [h.scopes.has]
    by_cases hx : x.lexeme ∈ K.names.getD []
    · rw [if_pos hx]
      refine tells_place h _ rfl rfl rfl ?_
      simp only [Place.fault?, Place.breach?, List.contains_iff_mem, if_pos hx]
      rfl
    · rw [if_neg hx]
      refine tells_place h _ rfl rfl rfl ?_
      simp [Place.fault?, Place.breach?, hx]
  rw [declare_run]
  generalize (if Dict.has (r.scopes.head?.getD []) x.lexeme then
    (report x "Already a variable with this name in this scope." r).2 else r) = r₁ at htold
  obtain ⟨hfaults, hscopes, hbody, hhome⟩ := htold
  generalize hs : r₁.scopes = ss at hscopes
  cases hscopes with
  | global hn =>
    rw [mark_nil hs]
    refine ⟨hfaults, ?_, hbody, hhome⟩
    rw [hs]
    exact .global (by simp [Surroundings.initializing, Surroundings.declare, hn])
  | @«local» xs s hn hnames hready =>
    rw [mark_cons hs]
    refine ⟨hfaults, ?_, hbody, hhome⟩
    have hshown : (K.initializing x.lexeme).names = some (x.lexeme :: xs) := by
      simp [Surroundings.initializing, Surroundings.declare, hn]
    refine .local hshown (hnames.set _ _) fun y => ?_
    simp only [Surroundings.initializing, Option.some.injEq]
    by_cases hy : y = x.lexeme
    · rw [hy, Dict.get?_set_self]
      simp
    · rw [Dict.get?_set_of_ne _ _ hy, hready, hp]
      exact iff_of_false (Option.some_ne_none _).symm fun he => hy he.symm

theorem define_tells (h : Situated (K.initializing x.lexeme) outer r) (hp : K.pending = none) :
    Tells (K.declare [x.lexeme]) outer [] r (define x r).2 := by
  obtain ⟨hscopes, hbody, hhome⟩ := h
  unfold define
  generalize hs : r.scopes = ss at hscopes
  cases hscopes with
  | global hn =>
    rw [mark_nil hs]
    refine ⟨(List.append_nil _).symm, ?_, hbody, hhome⟩
    rw [hs]
    exact .global hn
  | @«local» xs s hn hnames hready =>
    rw [mark_cons hs]
    refine ⟨(List.append_nil _).symm, ?_, hbody, hhome⟩
    obtain ⟨ys, hk⟩ : ∃ ys, K.names = some ys := by
      cases hk : K.names with
      | none => simp [Surroundings.initializing, Surroundings.declare, hk] at hn
      | some ys => exact ⟨ys, rfl⟩
    have hxs : xs = x.lexeme :: ys := by
      simpa [Surroundings.initializing, Surroundings.declare, hk] using hn.symm
    subst hxs
    have hshown : (K.declare [x.lexeme]).names = some (x.lexeme :: ys) := by
      simp [Surroundings.declare, hk]
    refine .local hshown (hnames.set_again _) fun y => ?_
    rw [show (K.declare [x.lexeme]).pending = none from hp]
    by_cases hy : y = x.lexeme
    · rw [hy, Dict.get?_set_self]
      simp
    · rw [Dict.get?_set_of_ne _ _ hy, hready]
      exact iff_of_false (fun he => hy (Option.some.inj he).symm) (Option.some_ne_none _).symm

mutual
theorem expr_tells {K : Surroundings} {outer : List Scope} {r : Resolver}
    (e : Expr Mark) (h : Situated K outer r) :
    Tells K outer (faults (e.places K)) r (expr e r).2 := by
  cases e with
  | literal v => exact h.nothing
  | grouping e | unary op e | get e name => exact expr_tells e h
  | binary a op b | logical a op b =>
    have ha := expr_tells a h
    rw [Expr.places, faults_append]
    exact ha.trans (expr_tells b ha.state)
  | var ref => exact read_tells h ref
  | assign ref e =>
    have he := expr_tells e h
    obtain ⟨bs, hb⟩ := bind_state (.assign ref e) ref (expr e r).2
    refine ⟨?_, ?_⟩
    · change ((bind (.assign ref e) ref (expr e r).2).2).diagnostics = _
      rw [hb]
      exact he.faults
    · change Situated K outer (bind (.assign ref e) ref (expr e r).2).2
      rw [hb]
      exact he.state.congr rfl rfl rfl
  | call f paren args =>
    have hf := expr_tells f h
    rw [Expr.places, faults_append]
    exact hf.trans (exprs_tells args hf.state)
  | set o name e =>
    have he := expr_tells e h
    rw [Expr.places, faults_append]
    exact he.trans (expr_tells o he.state)
  | this ref => exact this_tells h ref
  | super ref method => exact super_tells h ref method

theorem exprs_tells {K : Surroundings} {outer : List Scope} {r : Resolver}
    (es : List (Expr Mark)) (h : Situated K outer r) :
    Tells K outer (faults (Expr.placesAll K es)) r (exprs es r).2 := by
  cases es with
  | nil => exact h.nothing
  | cons e es =>
    have he := expr_tells e h
    rw [Expr.placesAll, faults_append]
    exact he.trans (exprs_tells es he.state)
end

theorem expr?_tells (o : Option (Expr Mark)) (h : Situated K outer r) :
    Tells K outer (faults (Expr.places? K o)) r (expr? o r).2 := by
  cases o with
  | none => exact h.nothing
  | some e => exact expr_tells e h

theorem routinePlaces_declare (K : Surroundings) (xs : List Text) (kind : Body)
    (f : Routine (Stmt Mark)) :
    Stmt.routinePlaces (K.declare xs) kind f = Stmt.routinePlaces K kind f := by
  cases f
  simp only [Stmt.routinePlaces]
  rfl

theorem Situated.begin (h : Situated K outer r) : Situated K.enter r.scopes (begin r).2 :=
  ⟨.local rfl (fun _ => ⟨nofun, nofun⟩) fun _ => ⟨nofun, nofun⟩, h.body, h.home⟩

theorem Situated.leave (h : Situated K outer r) (hn : K.names.isSome) :
    (finish r).2.scopes = outer := by
  obtain ⟨hscopes, -, -⟩ := h
  generalize hs : r.scopes = ss at hscopes
  cases hscopes with
  | global hg => simp [hg] at hn
  | «local» _ _ _ =>
    change r.scopes.tail = _
    rw [hs]
    rfl

theorem introduce_tells (h : Situated K outer r) (hp : K.pending = none) (x : Token) :
    Tells (K.declare [x.lexeme]) outer (faults [⟨K, .declaration x⟩]) r
      (define x (declare x r).2).2 := by
  have hd := declare_tells h hp x
  have := hd.trans (define_tells hd.state hp)
  rwa [List.append_nil] at this

theorem params_tells (ps : List Token) {K : Surroundings} {r : Resolver}
    (h : Situated K outer r) (hp : K.pending = none) :
    Tells (K.declare (ps.map Token.lexeme)) outer (faults (Stmt.paramPlaces K ps)) r
      (params ps r).2 := by
  induction ps generalizing K r with
  | nil =>
    rw [List.map_nil, Surroundings.declare_nil]
    exact h.nothing
  | cons p ps ih =>
    have hi := introduce_tells h hp p
    have := hi.trans (ih hi.state hp)
    rwa [Surroundings.declare_declare, ← faults_append] at this

theorem atSuperclass_tells (h : Situated K outer r) (name : Token) (ref : Reference Mark) :
    Tells { K with home := .derived } outer (faults [⟨K, .inheritance name ref.name⟩]) r
      (atSuperclass name ref r) := by
  have htold : Tells K outer (faults [⟨K, .inheritance name ref.name⟩]) r
      (if ref.name.lexeme = name.lexeme then
        (report ref.name "A class can't inherit from itself." r).2 else r) := by
    refine tells_place h _ ?_ ?_ ?_ ?_ <;> by_cases hx : ref.name.lexeme = name.lexeme
    all_goals simp only [hx, if_true, if_false, Place.fault?, Place.breach?]
    all_goals simp [report, Breach.message]
    all_goals rfl
  exact ⟨htold.faults, htold.state.scopes, htold.state.body, rfl⟩

theorem inThis (K : Surroundings) (derived : Bool) (a : Resolver) (hb : a.body = K.body)
    (hh : a.home = if derived then .derived else .plain) :
    Situated (K.inClass derived) a.scopes (mark "this" true (begin a).2).2 := by
  have hshown : (K.inClass derived).names = some [("this" : Text)] := rfl
  refine ⟨.local hshown (Lists.nil.set _ _) fun y => ?_, hb, hh⟩
  by_cases hy : y = "this"
  · rw [hy, Dict.get?_set_self]
    simp [Surroundings.inClass]
  · rw [Dict.get?_set_of_ne _ _ hy]
    exact ⟨nofun, nofun⟩

theorem superclass_tells (h : Situated K outer r) (hk : K.home = .plain) (name : Token)
    (sup : Option (Reference Mark)) :
    (superclass name sup r).2.diagnostics =
        r.diagnostics ++ faults (Stmt.parentPlaces K name sup) ∧
      Shows K.names K.pending outer (if sup.isSome then (superclass name sup r).2.scopes.tail
        else (superclass name sup r).2.scopes) ∧
      (superclass name sup r).2.body = K.body ∧
      (superclass name sup r).2.home = if sup.isSome then .derived else .plain := by
  cases sup with
  | none => exact ⟨(List.append_nil _).symm, h.scopes, h.body, h.home.trans hk⟩
  | some ref =>
    have ha := atSuperclass_tells h name ref
    have hr := ha.trans (read_tells ha.state ref)
    rw [superclass_run, Stmt.parentPlaces]
    exact ⟨hr.faults.trans (congrArg _ (faults_append [_] [_]).symm), hr.state.scopes,
      hr.state.body, hr.state.home⟩

theorem parentPlaces_declare (K : Surroundings) (home : Home) (name : Token)
    (sup : Option (Reference Mark)) :
    faults (Stmt.parentPlaces ({ K with home }.declare [name.lexeme]) name sup) =
      faults (Stmt.parentPlaces (K.declare [name.lexeme]) name sup) := by
  cases sup with
  | none => rfl
  | some ref => rfl

theorem inClass_tells (h : Situated K outer r) (hp : K.pending = none) (name : Token) :
    Tells ({ K with home := .plain }.declare [name.lexeme]) outer
      (faults [⟨K, .declaration name⟩]) r (inClass name r) :=
  have hin : Situated { K with home := .plain } outer { r with home := .plain } :=
    ⟨h.scopes, h.body, rfl⟩
  ⟨(introduce_tells hin hp name).faults, (introduce_tells hin hp name).state⟩

theorem closeClass_state (name : Token) (methods : List (Routine (Stmt Mark))) (home : Home)
    (o : Option (Reference Distance) × Resolver) :
    let m := (routines methods (mark "this" true (begin o.2).2).2).2
    (closeClass name methods home o).2.diagnostics = m.diagnostics ∧
      (closeClass name methods home o).2.scopes =
        (if o.1.isSome then (finish m).2.scopes.tail else (finish m).2.scopes) ∧
      (closeClass name methods home o).2.body = m.body ∧
      (closeClass name methods home o).2.home = home := by
  obtain ⟨_ | ref, a⟩ := o
  · exact ⟨rfl, rfl, rfl, rfl⟩
  · exact ⟨rfl, rfl, rfl, rfl⟩

mutual
theorem stmt_tells {K : Surroundings} {outer : List Scope} {r : Resolver} (s : Stmt Mark)
    (h : Situated K outer r) (hp : K.pending = none) :
    Tells (K.declare s.declares) outer (faults (s.places K)) r (stmt s r).2 := by
  cases s with
  | expression e | print e =>
    rw [Stmt.declares, Surroundings.declare_nil]
    exact expr_tells e h
  | varDecl x init =>
    have hd := declare_tells h hp x
    have hi := hd.trans (expr?_tells init hd.state)
    have := hi.trans (define_tells hi.state hp)
    rwa [List.append_nil, ← faults_append] at this
  | block body =>
    have hb := stmts_tells body h.begin rfl
    rw [Stmt.declares, Surroundings.declare_nil]
    refine ⟨hb.faults, ?_, hb.state.body, hb.state.home⟩
    have : (stmt (.block body) r).2.scopes = r.scopes :=
      hb.state.leave (Surroundings.names_declare _ _)
    rw [this]
    exact h.scopes
  | ifThen c s | loop c s =>
    have hc := expr_tells c h
    rw [Stmt.places, faults_append]
    exact hc.trans (stmt_tells s hc.state hp)
  | ifElse c s t =>
    have hc := expr_tells c h
    have hs := hc.trans (stmt_tells s hc.state hp)
    have := hs.trans (stmt_tells t hs.state hp)
    rwa [Surroundings.declare_declare, ← faults_append, ← faults_append] at this
  | funDecl f =>
    have hd := introduce_tells h hp f.name
    have := hd.trans (routine_tells .function f hd.state)
    rwa [routinePlaces_declare, ← faults_append] at this
  | ret word value =>
    have hc := checkReturn_tells h word value
    have := hc.trans (expr?_tells value hc.state)
    rw [Stmt.declares, Surroundings.declare_nil]
    rwa [← faults_append] at this
  | classDecl x sup methods =>
    have hx := inClass_tells h hp x
    obtain ⟨hfaults, hscopes, hbody, hhome⟩ := superclass_tells hx.state rfl x sup
    have hm := routines_tells methods (inThis K sup.isSome _ hbody hhome) rfl
    have hleft := hm.state.leave rfl
    have hsup := superclass_isSome x sup (inClass x r)
    rw [classDecl_run]
    generalize superclass x sup (inClass x r) = o at *
    obtain ⟨hd, hs, hb, hh⟩ := closeClass_state x methods r.home o
    refine ⟨?_, ?_, hb.trans hm.state.body, hh.trans h.home⟩
    · rw [hd, hm.faults]
      change o.2.diagnostics ++ _ = _
      rw [hfaults, hx.faults, parentPlaces_declare, List.append_assoc, List.append_assoc,
        ← faults_append, ← faults_append]
      rfl
    · rw [hs, hsup, hleft]
      exact hscopes

theorem stmts_tells {K : Surroundings} {outer : List Scope} {r : Resolver}
    (ss : List (Stmt Mark)) (h : Situated K outer r) (hp : K.pending = none) :
    Tells (K.declare (ss.flatMap Stmt.declares)) outer (faults (Stmt.placesAll K ss)) r
      (stmts ss r).2 := by
  cases ss with
  | nil =>
    rw [List.flatMap_nil, Surroundings.declare_nil]
    exact h.nothing
  | cons s ss =>
    have hs := stmt_tells s h hp
    have := hs.trans (stmts_tells ss hs.state hp)
    rwa [Surroundings.declare_declare, ← faults_append] at this

theorem routine_tells {K : Surroundings} {outer : List Scope} {r : Resolver} (kind : Body)
    (f : Routine (Stmt Mark)) (h : Situated K outer r) :
    Tells K outer (faults (Stmt.routinePlaces K kind f)) r (routine kind f r).2 := by
  obtain ⟨name, ps, body⟩ := f
  have hin : Situated (K.inRoutine kind) r.scopes (begin { r with body := kind }).2 :=
    ⟨.local rfl (fun _ => ⟨nofun, nofun⟩) fun _ => ⟨nofun, nofun⟩, rfl, h.home⟩
  have hps := params_tells ps hin rfl
  have hb := hps.trans (stmts_tells body hps.state rfl)
  have hleft := hb.state.leave (by simp only [Surroundings.names_declare]; rfl)
  refine ⟨?_, ?_, h.body, hb.state.home⟩
  · have := hb.faults
    rwa [← faults_append] at this
  · have : (routine kind ⟨name, ps, body⟩ r).2.scopes = r.scopes := hleft
    rw [this]
    exact h.scopes

theorem routines_tells {K : Surroundings} {outer : List Scope} {r : Resolver}
    (fs : List (Routine (Stmt Mark))) (h : Situated K outer r) (hp : K.pending = none) :
    Tells K outer (faults (Stmt.methodPlaces K fs)) r (routines fs r).2 := by
  cases fs with
  | nil => exact h.nothing
  | cons f fs =>
    have hf := routine_tells (methodBody f.name) f h
    rw [Stmt.methodPlaces, faults_append]
    exact hf.trans (routines_tells fs hf.state hp)
end

theorem Situated.initial : Situated .outermost [] initial := ⟨.global rfl, rfl, rfl⟩

theorem faults_stage (ps : List Place) : ∀ d ∈ faults ps, d.stage = .resolving := by
  intro d hd
  obtain ⟨p, -, hp⟩ := List.mem_filterMap.1 hd
  obtain ⟨b, -, rfl⟩ := Option.map_eq_some_iff.1 hp
  rfl

end Resolver

namespace Resolved

open Resolver

theorem ofProgram_faults (program : List (Stmt Mark)) :
    (ofProgram program).diagnostics = faults (Stmt.placesAll .outermost program) :=
  (stmts_tells program .initial rfl).faults

theorem ofProgram_stage (program : List (Stmt Mark)) :
    ∀ d ∈ (ofProgram program).diagnostics, d.stage = .resolving := by
  rw [ofProgram_faults]
  exact faults_stage _

end Resolved

end LoxLang
