import LoxLang.Proofs.Grammar
import LoxLang.Proofs.Number.Double
import LoxLang.Proofs.Scan.Tiling

namespace LoxLang
set_option autoImplicit true

def Text.IsName (w : Text) : Prop :=
  ∃ b v, w = b :: v ∧ Text.isLetter b ∧ (∀ c ∈ v, Text.isWord c) ∧
    Token.Kind.ofWord w = .identifier

def Text.AllWord (w : Text) : Prop := ∀ b ∈ w, Text.isWord b = true

instance (w : Text) : Decidable w.AllWord :=
  decidable_of_iff (w.all Text.isWord = true) List.all_eq_true

theorem Text.IsName.allWord {w : Text} (h : w.IsName) : w.AllWord := by
  obtain ⟨b, v, rfl, hb, hv, -⟩ := h
  intro c hc
  rcases List.mem_cons.1 hc with rfl | hc
  · rw [Text.isWord, hb]
    rfl
  · exact hv c hc

namespace Token

/-- The token wherever it stands. -/
def anywhere (t : Token) : Token := { t with line := 0 }

/-- Operators that stand before or between operands and always have all of them evaluated. -/
def signs : List (Text × Kind) :=
  [("!", .bang), ("-", .minus), ("!=", .bangEqual), ("==", .equalEqual), (">", .greater),
    (">=", .greaterEqual), ("<", .less), ("<=", .lessEqual), ("+", .plus), ("/", .slash),
    ("*", .star)]

/-- Operators that may leave their right operand alone. -/
def joints : List (Text × Kind) := [("and", .and), ("or", .or)]

def Is (k : Kind) (w : Text) (t : Token) : Prop := t.anywhere = synthetic k w

def IsName (t : Token) : Prop := t.Is .identifier t.lexeme ∧ t.lexeme.IsName

def OneOf (table : List (Text × Kind)) (t : Token) : Prop :=
  ∃ k, table.lookup t.lexeme = some k ∧ t.Is k t.lexeme

def Scanned (t : Token) : Prop :=
  (∃ f, Scan.Form.Reads f t.lexeme t.kind) ∧ t.literal = Scan.literal? t.kind t.lexeme

theorem Scanned.is (h : Scanned t) (hk : t.kind ∉ [Kind.number, .string]) :
    t.Is t.kind t.lexeme := by
  obtain ⟨k, w, v, line⟩ := t
  have hv : v = Scan.literal? k w := h.2
  have hnone : Scan.literal? k w = none := by
    unfold Scan.literal?
    split
    · exact absurd List.mem_cons_self hk
    · exact absurd (List.mem_cons_of_mem _ List.mem_cons_self) hk
    · rfl
  rw [hv, hnone]
  rfl

theorem Scanned.isName (h : Scanned t) (hk : t.kind = .identifier) : t.IsName := by
  have his := h.is (by rw [hk]; decide)
  obtain ⟨⟨f, hf⟩, -⟩ := h
  rw [hk] at his
  refine ⟨his, ?_⟩
  generalize t.lexeme = w at hf
  generalize t.kind = k at hf hk
  cases hf with
  | operator hmem =>
    have hall : ∀ op ∈ Scan.operators, op.2 ≠ .identifier := by decide
    exact absurd hk (hall _ hmem)
  | word hb hw => exact ⟨_, _, rfl, hb, hw, hk⟩
  | whole | fraction | string => cases hk

def spellings : List (Text × Kind) := Scan.operators ++ Kind.keywords

theorem Scanned.mem_spellings (h : Scanned t)
    (hk : t.kind ∉ [Kind.identifier, .number, .string]) : (t.lexeme, t.kind) ∈ spellings := by
  obtain ⟨⟨f, hf⟩, -⟩ := h
  generalize t.lexeme = w at hf
  generalize t.kind = k at hf hk
  cases hf with
  | operator hmem => exact List.mem_append_left _ hmem
  | word hb hw =>
    refine List.mem_append_right _ (Kind.mem_keywords_of_ofWord rfl fun hname => hk ?_)
    rw [hname]
    exact List.mem_cons_self
  | whole | fraction | string => exact absurd (by decide) hk

theorem Scanned.of_kind (h : Scanned t) (hk : t.kind = k)
    (hplain : k ∉ [Kind.identifier, .number, .string])
    (hword : ∀ e ∈ spellings, e.2 = k → e.1 = w) : t.Is k w := by
  have hmem := h.mem_spellings (hk ▸ hplain)
  have his := h.is fun hmem => hplain (hk ▸ List.mem_cons_of_mem _ hmem)
  have hw : t.lexeme = w := hword _ hmem hk
  rwa [hk, hw] at his

theorem Scanned.oneOf (h : Scanned t) {table : List (Text × Kind)}
    (hk : t.kind ∈ table.map Prod.snd)
    (htable : ∀ k ∈ table.map Prod.snd, k ∉ [Kind.identifier, .number, .string])
    (hword : ∀ e ∈ spellings, e.2 ∈ table.map Prod.snd → table.lookup e.1 = some e.2) :
    t.OneOf table := by
  have hplain := htable _ hk
  refine ⟨t.kind, hword _ (h.mem_spellings hplain) hk, h.is fun hmem => hplain ?_⟩
  exact List.mem_cons_of_mem _ hmem

theorem Scanned.sign (h : Scanned t) (hk : t.kind ∈ signs.map Prod.snd) : t.OneOf signs :=
  h.oneOf hk (by decide) (by decide)

theorem Scanned.joint (h : Scanned t) (hk : t.kind ∈ joints.map Prod.snd) : t.OneOf joints :=
  h.oneOf hk (by decide) (by decide)

theorem Scanned.rightParen (h : Scanned t) (hk : t.kind = .rightParen) : t.Is .rightParen ")" :=
  h.of_kind hk (by decide) (by decide)

theorem Scanned.this (h : Scanned t) (hk : t.kind = .this) : t.Is .this "this" :=
  h.of_kind hk (by decide) (by decide)

theorem Scanned.super (h : Scanned t) (hk : t.kind = .super) : t.Is .super "super" :=
  h.of_kind hk (by decide) (by decide)

theorem Scanned.return_ (h : Scanned t) (hk : t.kind = .return_) : t.Is .return_ "return" :=
  h.of_kind hk (by decide) (by decide)

end Token

def Literal.Written (v : Option Literal) : Prop := ∀ x, v = some (.number x) → Double.Unsigned x

theorem Token.Scanned.written {t : Token} (h : t.Scanned) : Literal.Written t.literal := by
  intro x hx
  have hv := h.2
  rw [hx] at hv
  cases hk : t.kind with
  | number =>
    rw [hk] at hv
    cases hv
    exact Double.ofPositional_unsigned _
  | _ =>
    rw [hk] at hv
    cases hv

mutual
def Expr.Written : Expr μ → Prop
  | .literal v => Literal.Written v
  | .grouping e => e.Written
  | .unary op e => op.OneOf Token.signs ∧ e.Written
  | .binary l op r => op.OneOf Token.signs ∧ l.Written ∧ r.Written
  | .logical l op r => op.OneOf Token.joints ∧ l.Written ∧ r.Written
  | .var ref => ref.name.IsName
  | .assign ref e => ref.name.IsName ∧ e.Written
  | .call f paren args => paren.Is .rightParen ")" ∧ f.Written ∧ Expr.WrittenAll args
  | .get o name => name.IsName ∧ o.Written
  | .set o name e => name.IsName ∧ o.Written ∧ e.Written
  | .this ref => ref.name.Is .this "this"
  | .super ref method => ref.name.Is .super "super" ∧ method.IsName

def Expr.WrittenAll : List (Expr μ) → Prop
  | [] => True
  | e :: es => e.Written ∧ Expr.WrittenAll es
end

def Expr.Written? (o : Option (Expr μ)) : Prop := ∀ e ∈ o, e.Written

mutual
def Stmt.Written : Stmt μ → Prop
  | .expression e | .print e => e.Written
  | .varDecl name init => name.IsName ∧ Expr.Written? init
  | .block body => Stmt.WrittenAll body
  | .ifThen c s | .loop c s => c.Written ∧ s.Written
  | .ifElse c s t => c.Written ∧ s.Written ∧ t.Written
  | .funDecl r => Stmt.WrittenRoutine r
  | .ret word value => word.Is .return_ "return" ∧ Expr.Written? value
  | .classDecl name sup methods =>
    name.IsName ∧ (∀ ref ∈ sup, ref.name.IsName) ∧ Stmt.WrittenRoutines methods

def Stmt.WrittenAll : List (Stmt μ) → Prop
  | [] => True
  | s :: ss => s.Written ∧ Stmt.WrittenAll ss

def Stmt.WrittenRoutine : Routine (Stmt μ) → Prop
  | ⟨name, params, body⟩ => name.IsName ∧ (∀ p ∈ params, p.IsName) ∧ Stmt.WrittenAll body

def Stmt.WrittenRoutines : List (Routine (Stmt μ)) → Prop
  | [] => True
  | r :: rs => Stmt.WrittenRoutine r ∧ Stmt.WrittenRoutines rs
end

mutual
theorem Expr.written_map (f : μ → ν) (e : Expr μ) : (e.map f id).Written ↔ e.Written := by
  cases e with
  | literal | var | this | super => rfl
  | grouping e => exact Expr.written_map f e
  | unary op e => simp only [Expr.map, Expr.Written, Expr.written_map f e, id]
  | binary l op r | logical l op r =>
    simp only [Expr.map, Expr.Written, Expr.written_map f l, Expr.written_map f r, id]
  | assign ref e => simp only [Expr.map, Expr.Written, Expr.written_map f e, Reference.map, id]
  | call g paren args =>
    simp only [Expr.map, Expr.Written, Expr.written_map f g, Expr.writtenAll_map f args, id]
  | get o name => simp only [Expr.map, Expr.Written, Expr.written_map f o, id]
  | set o name e =>
    simp only [Expr.map, Expr.Written, Expr.written_map f o, Expr.written_map f e, id]

theorem Expr.writtenAll_map (f : μ → ν) (es : List (Expr μ)) :
    Expr.WrittenAll (Expr.mapAll f id es) ↔ Expr.WrittenAll es := by
  cases es with
  | nil => rfl
  | cons e es =>
    simp only [Expr.mapAll, Expr.WrittenAll, Expr.written_map f e, Expr.writtenAll_map f es]
end

theorem Expr.written?_map (f : μ → ν) (o : Option (Expr μ)) :
    Expr.Written? (o.map (Expr.map f id)) ↔ Expr.Written? o := by
  cases o with
  | none => simp [Expr.Written?]
  | some e => simp [Expr.Written?, Expr.written_map f e]

mutual
theorem Stmt.written_map (f : μ → ν) (s : Stmt μ) : (s.map f id).Written ↔ s.Written := by
  cases s with
  | expression e | print e => exact Expr.written_map f e
  | varDecl name init => simp only [Stmt.map, Stmt.Written, Expr.written?_map f init, id]
  | block body => exact Stmt.writtenAll_map f body
  | ifThen c s | loop c s =>
    simp only [Stmt.map, Stmt.Written, Expr.written_map f c, Stmt.written_map f s]
  | ifElse c s t =>
    simp only [Stmt.map, Stmt.Written, Expr.written_map f c, Stmt.written_map f s,
      Stmt.written_map f t]
  | funDecl r => exact Stmt.writtenRoutine_map f r
  | ret keyword value => simp only [Stmt.map, Stmt.Written, Expr.written?_map f value, id]
  | classDecl name sup methods =>
    have hm := Stmt.writtenRoutines_map f methods
    cases sup with
    | none =>
      simp only [Stmt.map, Stmt.Written, hm, Option.map_none, Option.mem_def, reduceCtorEq,
        false_implies, implies_true, id]
    | some ref =>
      simp only [Stmt.map, Stmt.Written, hm, Option.map_some, Reference.map, id, Option.mem_def,
        Option.some.injEq, forall_eq']

theorem Stmt.writtenAll_map (f : μ → ν) (ss : List (Stmt μ)) :
    Stmt.WrittenAll (Stmt.mapAll f id ss) ↔ Stmt.WrittenAll ss := by
  cases ss with
  | nil => rfl
  | cons s ss =>
    simp only [Stmt.mapAll, Stmt.WrittenAll, Stmt.written_map f s, Stmt.writtenAll_map f ss]

theorem Stmt.writtenRoutine_map (f : μ → ν) (r : Routine (Stmt μ)) :
    Stmt.WrittenRoutine (Stmt.mapRoutine f id r) ↔ Stmt.WrittenRoutine r := by
  obtain ⟨name, params, body⟩ := r
  simp only [Stmt.mapRoutine, Stmt.WrittenRoutine, Stmt.writtenAll_map f body, List.map_id, id]

theorem Stmt.writtenRoutines_map (f : μ → ν) (rs : List (Routine (Stmt μ))) :
    Stmt.WrittenRoutines (Stmt.mapRoutines f id rs) ↔ Stmt.WrittenRoutines rs := by
  cases rs with
  | nil => rfl
  | cons r rs =>
    simp only [Stmt.mapRoutines, Stmt.WrittenRoutines, Stmt.writtenRoutine_map f r,
      Stmt.writtenRoutines_map f rs]
end

namespace Grammar

theorem Derives.written (h : Derives r ts e) (ht : ∀ t ∈ ts, t.Scanned) : e.Written := by
  induction h using Derives.rec
      (motive_2 := fun ts es _ => (∀ t ∈ ts, t.Scanned) → Expr.WrittenAll es)
      (motive_3 := fun ts es _ => (∀ t ∈ ts, t.Scanned) → Expr.WrittenAll es) with
  | assignName hx _ _ ih =>
    simp only [List.forall_mem_cons] at ht
    exact ⟨ht.1.isName hx, ih ht.2.2⟩
  | assignField _ _ hx _ _ iho ihv =>
    simp only [List.forall_mem_append, List.forall_mem_cons] at ht
    exact ⟨ht.2.2.1.isName hx, iho ht.1, ihv ht.2.2.2.2⟩
  | noAssignment _ ih | noOr _ ih | noAnd _ ih | noEquality _ ih | noComparison _ ih | noTerm _ ih
  | noFactor _ ih | noUnary _ ih | noCall _ ih => exact ih ht
  | or _ ho _ ihl ihr | and _ ho _ ihl ihr =>
    simp only [List.forall_mem_append, List.forall_mem_cons] at ht
    exact ⟨ht.2.1.joint (by rw [ho]; decide), ihl ht.1, ihr ht.2.2⟩
  | equality _ ho _ ihl ihr | term _ ho _ ihl ihr | factor _ ho _ ihl ihr =>
    simp only [List.forall_mem_append, List.forall_mem_cons] at ht
    refine ⟨ht.2.1.sign ?_, ihl ht.1, ihr ht.2.2⟩
    rcases ho with ho | ho <;> rw [ho] <;> decide
  | comparison _ ho _ ihl ihr =>
    simp only [List.forall_mem_append, List.forall_mem_cons] at ht
    refine ⟨ht.2.1.sign ?_, ihl ht.1, ihr ht.2.2⟩
    rcases ho with ho | ho | ho | ho <;> rw [ho] <;> decide
  | unary ho _ ih =>
    simp only [List.forall_mem_cons] at ht
    refine ⟨ht.1.sign ?_, ih ht.2⟩
    rcases ho with ho | ho <;> rw [ho] <;> decide
  | call _ _ _ _ hr ihf iha =>
    simp only [List.forall_mem_append, List.forall_mem_cons] at ht
    exact ⟨ht.2.2.2.1.rightParen hr, ihf ht.1, iha ht.2.2.1⟩
  | property _ _ hx ih =>
    simp only [List.forall_mem_append, List.forall_mem_cons] at ht
    exact ⟨ht.2.2.1.isName hx, ih ht.1⟩
  | false_ | true_ | nil => exact fun x hx => by cases hx
  | constant => exact (ht _ List.mem_cons_self).written
  | this hk => exact (ht _ List.mem_cons_self).this hk
  | name hk => exact (ht _ List.mem_cons_self).isName hk
  | super hk _ hx =>
    simp only [List.forall_mem_cons] at ht
    exact ⟨ht.1.super hk, ht.2.2.1.isName hx⟩
  | grouping _ _ _ ih =>
    simp only [List.forall_mem_append, List.forall_mem_cons] at ht
    exact ih ht.2.1
  | none => trivial
  | some _ ih => exact ih ‹_›
  | one _ ih => exact ⟨ih ‹_›, trivial⟩
  | more _ _ _ ihe ihes =>
    rename_i ht
    simp only [List.forall_mem_append, List.forall_mem_cons] at ht
    exact ⟨ihe ht.1, ihes ht.2.2⟩

theorem Optional.written (h : Grammar.Optional ts o) (ht : ∀ t ∈ ts, t.Scanned) :
    Expr.Written? o := by
  cases h with
  | none => exact fun e he => absurd he (by simp)
  | some h =>
    intro e he
    cases he
    exact h.written ht

theorem Effect.written (h : Effect ts s) (ht : ∀ t ∈ ts, t.Scanned) : s.Written := by
  cases h with
  | mk he =>
    simp only [List.forall_mem_append] at ht
    exact he.written ht.1

theorem Variable.written (h : Variable ts s) (ht : ∀ t ∈ ts, t.Scanned) : s.Written := by
  cases h with
  | plain hx => exact ⟨(ht _ List.mem_cons_self).isName hx, fun e he => absurd he (by simp)⟩
  | initialized hx _ h =>
    simp only [List.forall_mem_append, List.forall_mem_cons] at ht
    refine ⟨ht.1.isName hx, fun e he => ?_⟩
    cases he
    exact h.written ht.2.2.1

theorem Names.written (h : Names ts xs) (ht : ∀ t ∈ ts, t.Scanned) : ∀ x ∈ xs, x.IsName := by
  induction h with
  | one hx =>
    simp only [List.forall_mem_cons] at ht ⊢
    exact ⟨ht.1.isName hx, fun y hy => absurd hy (by simp)⟩
  | more hx _ _ ih =>
    simp only [List.forall_mem_cons] at ht ⊢
    exact ⟨ht.1.isName hx, ih ht.2.2⟩

theorem Parameters.written (h : Parameters ts xs) (ht : ∀ t ∈ ts, t.Scanned) :
    ∀ x ∈ xs, x.IsName := by
  cases h with
  | none => exact fun x hx => absurd hx List.not_mem_nil
  | some hs => exact hs.written ht

theorem Parent.written (h : Parent ts sup) (ht : ∀ t ∈ ts, t.Scanned) :
    ∀ ref ∈ sup, ref.name.IsName := by
  cases h with
  | none => exact fun x hx => absurd hx (by simp)
  | some _ hx =>
    intro ref href
    cases href
    simp only [List.forall_mem_cons] at ht
    exact ht.2.1.isName hx

theorem loop_written {init : Option (Stmt Unit)} (hi : ∀ s ∈ init, s.Written)
    (hc : Expr.Written? condition) (hx : Expr.Written? step) (hs : body.Written) :
    (loop init condition step body).Written := by
  have hcond : (condition.getD (.literal (some (.bool true)))).Written := by
    cases condition with
    | none => exact fun x hx => by cases hx
    | some c => exact hc c rfl
  have hbody : (stepped body step).Written := by
    cases step with
    | none => exact hs
    | some e => exact ⟨hs, hx e rfl, trivial⟩
  cases init with
  | none => exact ⟨hcond, hbody⟩
  | some s => exact ⟨hi s rfl, ⟨hcond, hbody⟩, trivial⟩

theorem Declarations.written (h : Declarations ts ss) (ht : ∀ t ∈ ts, t.Scanned) :
    Stmt.WrittenAll ss := by
  induction h using Declarations.rec
      (motive_1 := fun _ ts s _ => (∀ t ∈ ts, t.Scanned) → s.Written)
      (motive_2 := fun ts s _ => (∀ t ∈ ts, t.Scanned) → s.Written)
      (motive_4 := fun ts f _ => (∀ t ∈ ts, t.Scanned) → Stmt.WrittenRoutine f)
      (motive_5 := fun ts fs _ => (∀ t ∈ ts, t.Scanned) → Stmt.WrittenRoutines fs) with
  | effect h => exact h.written ‹_›
  | print _ he =>
    rename_i ht
    simp only [List.forall_mem_append, List.forall_mem_cons] at ht
    exact he.written ht.2.1
  | ret hk ho =>
    rename_i ht
    simp only [List.forall_mem_append, List.forall_mem_cons] at ht
    exact ⟨ht.1.return_ hk, ho.written ht.2.1⟩
  | block _ _ _ ih =>
    rename_i ht
    simp only [List.forall_mem_append, List.forall_mem_cons] at ht
    exact ih ht.2.1
  | ifThen _ _ hc _ _ ih | while_ _ _ hc _ _ ih =>
    rename_i ht
    simp only [List.forall_mem_append, List.forall_mem_cons] at ht
    exact ⟨hc.written ht.2.2.1, ih ht.2.2.2.2⟩
  | ifElse _ _ hc _ _ _ _ ihs iht =>
    rename_i ht
    simp only [List.forall_mem_append, List.forall_mem_cons] at ht
    exact ⟨hc.written ht.2.2.1, ihs ht.2.2.2.2.1, iht ht.2.2.2.2.2.2⟩
  | for_ _ _ hi hcond _ hstep _ _ ih =>
    rename_i ht
    simp only [List.forall_mem_append, List.forall_mem_cons] at ht
    refine loop_written ?_ (hcond.written ht.2.2.2.1) (hstep.written ht.2.2.2.2.2.1)
      (ih ht.2.2.2.2.2.2.2)
    cases hi with
    | none => exact fun s hs => absurd hs (by simp)
    | var _ hv =>
      intro s hs
      cases hs
      exact hv.written fun t hm => ht.2.2.1 t (List.mem_cons_of_mem _ hm)
    | effect he =>
      intro s hs
      cases hs
      exact he.written ht.2.2.1
  | class_ _ hx hp _ _ _ ih =>
    rename_i ht
    simp only [List.forall_mem_append, List.forall_mem_cons] at ht
    exact ⟨ht.2.1.isName hx, hp.written ht.2.2.1, ih ht.2.2.2.2.1⟩
  | fun_ _ _ ih =>
    rename_i ht
    exact ih fun t hm => ht t (List.mem_cons_of_mem _ hm)
  | var _ hv =>
    rename_i ht
    exact hv.written fun t hm => ht t (List.mem_cons_of_mem _ hm)
  | statement _ ih => exact ih ‹_›
  | nil => trivial
  | cons _ _ ihs ihss =>
    simp only [List.forall_mem_append] at ht
    exact ⟨ihs ht.1, ihss ht.2⟩
  | mk hx _ hps _ _ _ _ _ ih =>
    rename_i ht
    simp only [List.forall_mem_append, List.forall_mem_cons] at ht
    exact ⟨ht.1.isName hx, hps.written ht.2.2.1, ih ht.2.2.2.2.2.1⟩
  | none => trivial
  | more _ _ ihf ihfs =>
    rename_i ht
    simp only [List.forall_mem_append] at ht
    exact ⟨ihf ht.1, ihfs ht.2⟩

end Grammar

end LoxLang
