import Mathlib.Data.List.Nodup
import LoxLang.Parser.Statement
import LoxLang.Proofs.Parser.Moves
import LoxLang.Proofs.Tree.Map

namespace LoxLang

/-- A node and the address that it was made at. -/
abbrev Spot := Expr Mark × Nat

/-- A tree and its nodes where they were made. -/
structure Made (α : Type) where
  tree : α
  places : List Spot

/-- Another tree over the same nodes. -/
def Made.map {α β : Type} (f : α → β) (x : Made α) : Made β := ⟨f x.tree, x.places⟩

/-- A tree that holds both, over the nodes of both. -/
def Made.join {α β γ : Type} (f : α → β → γ) (x : Made α) (y : Made β) : Made γ :=
  ⟨f x.tree y.tree, x.places ++ y.places⟩

/-- A parser, and the first address that is not taken. -/
structure Maker where
  parser : Parser
  next : Nat

abbrev Make := EStateM Parser.Stop Maker

namespace Maker
open LoxLang.Parser (accept sees expect report reject refer advance peek Level Role parameters forLoop)

def lift {α : Type} (P : Parse α) : Make α := fun m =>
  match P m.parser with
  | .ok a p => .ok a { m with parser := p }
  | .error e p => .error e { m with parser := p }

def make (node : Expr Mark) (below : List Spot) : Make (Made (Expr Mark)) := fun m =>
  .ok ⟨node, (node, m.next) :: below⟩ { m with next := m.next + 1 }

mutual
/-- The target of an assignment goes, but the object that a property is set of stays. -/
def assignment : Nat → Make (Made (Expr Mark))
  | 0 => throw .exhausted
  | n + 1 => do
    let target ← climb n .or
    match ← lift (accept [.equal]) with
    | none => return target
    | some equals =>
      let value ← assignment n
      match target.tree with
      | .var ref => make (.assign ref value.tree) value.places
      | .get object name => make (.set object name value.tree) (target.places.tail ++ value.places)
      | _ =>
        lift (report equals "Invalid assignment target.")
        return target

def climb : Nat → Level → Make (Made (Expr Mark))
  | 0, _ => throw .exhausted
  | n + 1, level => do
    let left ← operand n level
    chain n level left

def operand : Nat → Level → Make (Made (Expr Mark))
  | 0, _ => throw .exhausted
  | n + 1, level =>
    match level.tighter with
    | some next => climb n next
    | none => unary n

def chain : Nat → Level → Made (Expr Mark) → Make (Made (Expr Mark))
  | 0, _, _ => throw .exhausted
  | n + 1, level, left => do
    match ← lift (accept level.operators) with
    | none => return left
    | some operator =>
      let right ← operand n level
      let both ← make (level.join left.tree operator right.tree) (left.places ++ right.places)
      chain n level both

def unary : Nat → Make (Made (Expr Mark))
  | 0 => throw .exhausted
  | n + 1 => do
    match ← lift (accept [.bang, .minus]) with
    | some operator =>
      let e ← unary n
      make (.unary operator e.tree) e.places
    | none =>
      let callee ← primary n
      suffixes n callee

def suffixes : Nat → Made (Expr Mark) → Make (Made (Expr Mark))
  | 0, _ => throw .exhausted
  | n + 1, e => do
    match ← lift (accept [.leftParen, .dot]) with
    | none => return e
    | some t =>
      if t.kind = .leftParen then
        let args ← if ← lift (sees [.rightParen]) then pure ⟨[], []⟩ else arguments n 0
        let paren ← lift (expect .rightParen "Expect ')' after arguments.")
        let call ← make (.call e.tree paren args.tree) (e.places ++ args.places)
        suffixes n call
      else
        let name ← lift (expect .identifier "Expect property name after '.'.")
        let property ← make (.get e.tree name) e.places
        suffixes n property

def arguments : Nat → Nat → Make (Made (List (Expr Mark)))
  | 0, _ => throw .exhausted
  | n + 1, count => do
    if Parser.maxArguments ≤ count then
      lift (report (← lift peek) "Can't have more than 255 arguments.")
    let arg ← assignment n
    match ← lift (accept [.comma]) with
    | some _ => return arg.join .cons (← arguments n (count + 1))
    | none => return arg.map fun e => [e]

def primary : Nat → Make (Made (Expr Mark))
  | 0 => throw .exhausted
  | n + 1 => do
    let t ← lift peek
    match t.kind with
    | .false_ => lift advance; make (.literal (some (.bool false))) []
    | .true_ => lift advance; make (.literal (some (.bool true))) []
    | .nil => lift advance; make (.literal none) []
    | .number | .string => lift advance; make (.literal t.literal) []
    | .this =>
      lift advance
      let ref ← lift (refer t)
      make (.this ref) []
    | .identifier =>
      lift advance
      let ref ← lift (refer t)
      make (.var ref) []
    | .super =>
      lift advance
      let _ ← lift (expect .dot "Expect '.' after 'super'.")
      let method ← lift (expect .identifier "Expect superclass method name.")
      let ref ← lift (refer t)
      make (.super ref method) []
    | .leftParen =>
      lift advance
      let e ← assignment n
      let _ ← lift (expect .rightParen "Expect ')' after expression.")
      make (.grouping e.tree) e.places
    | _ => lift (reject t "Expect expression.")
end

def optional (n : Nat) (stop : Token.Kind) : Make (Made (Option (Expr Mark))) := do
  if ← lift (sees [stop]) then return ⟨none, []⟩
  else return (← assignment n).map some

def expressionStatement (n : Nat) : Make (Made (Stmt Mark)) := do
  let e ← assignment n
  let _ ← lift (expect .semicolon "Expect ';' after expression.")
  return e.map .expression

def varDeclaration (n : Nat) : Make (Made (Stmt Mark)) := do
  let name ← lift (expect .identifier "Expect variable name.")
  let init ← match ← lift (accept [.equal]) with
    | some _ => Made.map some <$> assignment n
    | none => pure ⟨none, []⟩
  let _ ← lift (expect .semicolon "Expect ';' after variable declaration.")
  return init.map (.varDecl name)

def printStatement (n : Nat) : Make (Made (Stmt Mark)) := do
  let e ← assignment n
  let _ ← lift (expect .semicolon "Expect ';' after value.")
  return e.map .print

def returnStatement (n : Nat) (keyword : Token) : Make (Made (Stmt Mark)) := do
  let value ← optional n .semicolon
  let _ ← lift (expect .semicolon "Expect ';' after return value.")
  return value.map (.ret keyword)

/-- The condition of a loop. One that is missing is made. -/
def condition : Made (Option (Expr Mark)) → Make (Made (Expr Mark))
  | ⟨some e, places⟩ => return ⟨e, places⟩
  | ⟨none, _⟩ => make (.literal (some (.bool true))) []

mutual
def declaration : Nat → Make (Option (Made (Stmt Mark)))
  | 0 => throw .exhausted
  | n + 1 =>
    tryCatch (some <$> declare n) fun
      | .rejected _ => do
        lift (modify fun p => { p with cursor := p.cursor.synchronize })
        return none
      | .exhausted => throw .exhausted

def declare : Nat → Make (Made (Stmt Mark))
  | 0 => throw .exhausted
  | n + 1 => do
    match ← lift (accept [.class_, .fun_, .var]) with
    | some t =>
      if t.kind = .class_ then classDeclaration n
      else if t.kind = .fun_ then Made.map .funDecl <$> routine n .function
      else varDeclaration n
    | none => statement n

def classDeclaration : Nat → Make (Made (Stmt Mark))
  | 0 => throw .exhausted
  | n + 1 => do
    let name ← lift (expect .identifier "Expect class name.")
    let superclass : Made (Option (Reference Mark)) ← match ← lift (accept [.less]) with
      | some _ => do
        let parent ← lift (expect .identifier "Expect superclass name.")
        let ref ← lift (refer parent)
        Made.map (fun _ => some ref) <$> make (.var ref) []
      | none => pure ⟨none, []⟩
    let _ ← lift (expect .leftBrace "Expect '\x7b' before class body.")
    let methods ← methods n
    return superclass.join (.classDecl name) methods

def methods : Nat → Make (Made (List (Routine (Stmt Mark))))
  | 0 => throw .exhausted
  | n + 1 => do
    let t ← lift peek
    if t.kind = .rightBrace ∨ t.kind = .eof then
      let _ ← lift (expect .rightBrace "Expect '\x7d' after class body.")
      return ⟨[], []⟩
    else
      let m ← routine n .method
      return m.join .cons (← methods n)

def routine : Nat → Role → Make (Made (Routine (Stmt Mark)))
  | 0, _ => throw .exhausted
  | n + 1, role => do
    let name ← lift (expect .identifier ("Expect " ++ role.word ++ " name."))
    let _ ← lift (expect .leftParen ("Expect '(' after " ++ role.word ++ " name."))
    let params ← if ← lift (sees [.rightParen]) then pure [] else lift (parameters n 0)
    let _ ← lift (expect .rightParen "Expect ')' after parameters.")
    let _ ← lift (expect .leftBrace ("Expect '\x7b' before " ++ role.word ++ " body."))
    let body ← block n
    return body.map (.mk name params)

def block : Nat → Make (Made (List (Stmt Mark)))
  | 0 => throw .exhausted
  | n + 1 => do
    let t ← lift peek
    if t.kind = .rightBrace ∨ t.kind = .eof then
      let _ ← lift (expect .rightBrace "Expect '\x7d' after block.")
      return ⟨[], []⟩
    else
      match ← declaration n with
      | some s => return s.join .cons (← block n)
      | none => block n

def statement : Nat → Make (Made (Stmt Mark))
  | 0 => throw .exhausted
  | n + 1 => do
    match ← lift (accept [.for_, .if_, .print, .return_, .while_, .leftBrace]) with
    | none => expressionStatement n
    | some t =>
      match t.kind with
      | .for_ => forStatement n
      | .if_ => ifStatement n
      | .print => printStatement n
      | .return_ => returnStatement n t
      | .while_ => whileStatement n
      | _ => Made.map .block <$> block n

def forStatement : Nat → Make (Made (Stmt Mark))
  | 0 => throw .exhausted
  | n + 1 => do
    let _ ← lift (expect .leftParen "Expect '(' after 'for'.")
    let init ← match ← lift (accept [.semicolon, .var]) with
      | none => Made.map some <$> expressionStatement n
      | some t =>
        if t.kind = .var then Made.map some <$> varDeclaration n else pure ⟨none, []⟩
    let cond ← optional n .semicolon
    let _ ← lift (expect .semicolon "Expect ';' after loop condition.")
    let increment ← optional n .rightParen
    let _ ← lift (expect .rightParen "Expect ')' after for clauses.")
    let body ← statement n
    let c ← condition cond
    return ⟨forLoop init.tree (some c.tree) increment.tree body.tree,
      init.places ++ (c.places ++ (body.places ++ increment.places))⟩

def ifStatement : Nat → Make (Made (Stmt Mark))
  | 0 => throw .exhausted
  | n + 1 => do
    let _ ← lift (expect .leftParen "Expect '(' after 'if'.")
    let c ← assignment n
    let _ ← lift (expect .rightParen "Expect ')' after if condition.")
    let yes ← statement n
    match ← lift (accept [.else_]) with
    | some _ =>
      let no ← statement n
      return ⟨.ifElse c.tree yes.tree no.tree, c.places ++ (yes.places ++ no.places)⟩
    | none => return c.join .ifThen yes

def whileStatement : Nat → Make (Made (Stmt Mark))
  | 0 => throw .exhausted
  | n + 1 => do
    let _ ← lift (expect .leftParen "Expect '(' after 'while'.")
    let c ← assignment n
    let _ ← lift (expect .rightParen "Expect ')' after condition.")
    let body ← statement n
    return c.join .loop body
end

def program : Nat → Make (Made (List (Stmt Mark)))
  | 0 => throw .exhausted
  | n + 1 => do
    let t ← lift peek
    if t.kind = .eof then return ⟨[], []⟩
    else
      match ← declaration n with
      | some s => return s.join .cons (← program n)
      | none => program n

end Maker

/-- The statements that parse, with the addresses of their nodes. -/
def Made.ofTokens (tokens : List Token) : Made (List (Stmt Mark)) :=
  match (Maker.program (Parser.steps tokens)).run ⟨Parser.start tokens, 0⟩ with
  | .ok program _ => program
  | .error _ _ => ⟨[], []⟩

namespace Parser
set_option autoImplicit true

theorem Moves.fresh (h : Moves p q) : p.fresh ≤ q.fresh := by
  induction h with
  | refl => exact Nat.le_refl _
  | tail _ hm ih =>
    cases hm with
    | skip | fault => exact ih
    | refer => exact Nat.le_succ_of_le ih

end Parser

namespace Maker
set_option autoImplicit true
open LoxLang.Parser (reject Treads)

structure Later (m m' : Maker) : Prop where
  next : m.next ≤ m'.next
  fresh : m.parser.fresh ≤ m'.parser.fresh

theorem Later.refl (m : Maker) : Later m m := ⟨Nat.le_refl _, Nat.le_refl _⟩

theorem Later.trans (h : Later m m') (h' : Later m' m'') : Later m m'' :=
  ⟨Nat.le_trans h.next h'.next, Nat.le_trans h.fresh h'.fresh⟩

structure Apart (a b : Nat) (ks : List Nat) : Prop where
  nodup : ks.Nodup
  range : ∀ k ∈ ks, a ≤ k ∧ k < b

theorem Apart.nil (a b : Nat) : Apart a b [] := ⟨List.nodup_nil, nofun⟩

theorem Apart.widen (h : Apart a b ks) (hb : b ≤ b') : Apart a b' ks :=
  ⟨h.nodup, fun k hk => ⟨(h.range k hk).1, Nat.lt_of_lt_of_le (h.range k hk).2 hb⟩⟩

theorem Apart.sublist (h : Apart a b ks) (hs : ks'.Sublist ks) : Apart a b ks' :=
  ⟨h.nodup.sublist hs, fun k hk => h.range k (hs.subset hk)⟩

theorem Apart.perm (h : Apart a b ks) (hp : ks.Perm ks') : Apart a b ks' :=
  ⟨hp.nodup_iff.1 h.nodup, fun k hk => h.range k (hp.mem_iff.2 hk)⟩

theorem Apart.append (hab : a ≤ b) (hbc : b ≤ c) (h : Apart a b ks) (h' : Apart b c ks') :
    Apart a c (ks ++ ks') := by
  refine ⟨List.nodup_append.2 ⟨h.nodup, h'.nodup, ?_⟩, ?_⟩
  · intro k hk k' hk'
    have hlt := (h.range k hk).2
    have hle := (h'.range k' hk').1
    omega
  · intro k hk
    rcases List.mem_append.1 hk with hk | hk
    · exact ⟨(h.range k hk).1, Nat.lt_of_lt_of_le (h.range k hk).2 hbc⟩
    · exact ⟨Nat.le_trans hab (h'.range k hk).1, (h'.range k hk).2⟩

theorem Apart.single (a : Nat) : Apart a (a + 1) [a] := by
  refine ⟨List.nodup_singleton a, ?_⟩
  intro k hk
  rw [List.mem_singleton.1 hk]
  exact ⟨Nat.le_refl a, Nat.lt_succ_self a⟩

def addresses (xs : List Spot) : List Nat := xs.map Prod.snd

def marks (xs : List Spot) : List Mark := xs.filterMap fun x => x.1.mark?

/-- These places were made between two makers, no two at one address or under one mark. -/
structure Within (m m' : Maker) (xs : List Spot) : Prop where
  later : Later m m'
  addresses : Apart m.next m'.next (addresses xs)
  marks : Apart m.parser.fresh m'.parser.fresh (marks xs)

theorem Within.nil (h : Later m m') : Within m m' [] := ⟨h, .nil _ _, .nil _ _⟩

theorem Within.widen (h : Within m m' xs) (hl : Later m' m'') : Within m m'' xs :=
  ⟨h.later.trans hl, h.addresses.widen hl.next, h.marks.widen hl.fresh⟩

theorem Within.append (h : Within m m' xs) (h' : Within m' m'' ys) : Within m m'' (xs ++ ys) := by
  refine ⟨h.later.trans h'.later, ?_, ?_⟩
  · rw [Maker.addresses, List.map_append]
    exact h.addresses.append h.later.next h'.later.next h'.addresses
  · rw [Maker.marks, List.filterMap_append]
    exact h.marks.append h.later.fresh h'.later.fresh h'.marks

theorem Within.sublist (h : Within m m' xs) (hs : ys.Sublist xs) : Within m m' ys :=
  ⟨h.later, h.addresses.sublist (hs.map _), h.marks.sublist (hs.filterMap _)⟩

theorem Within.perm (h : Within m m' xs) (hp : xs.Perm ys) : Within m m' ys :=
  ⟨h.later, h.addresses.perm (hp.map _), h.marks.perm (hp.filterMap _)⟩

def succ (m : Maker) : Maker := { m with next := m.next + 1 }

theorem later_succ (m : Maker) : Later m m.succ := ⟨Nat.le_succ _, Nat.le_refl _⟩

theorem Within.make (h : Within m m' xs) (hs : ys.Sublist xs) (hm : node.mark? = none) :
    Within m m'.succ ((node, m'.next) :: ys) := by
  have hys := h.sublist hs
  have hnew : Within m' m'.succ [(node, m'.next)] := by
    refine ⟨later_succ m', .single _, ?_⟩
    rw [Maker.marks, List.filterMap_cons, hm]
    exact .nil _ _
  exact (hys.append hnew).perm List.perm_append_comm

theorem Within.remake (h : Within m m' ((old, a) :: xs)) (hm : node.mark? = old.mark?) :
    Within m m'.succ ((node, m'.next) :: xs) := by
  have hgone := h.sublist (List.sublist_cons_self _ xs)
  refine ⟨h.later.trans (later_succ m'), ?_, ?_⟩
  · have haddresses := hgone.addresses.append h.later.next (Nat.le_succ _) (.single m'.next)
    exact haddresses.perm List.perm_append_comm
  · have hmarks := h.marks
    rw [Maker.marks, List.filterMap_cons] at hmarks ⊢
    rw [hm]
    exact hmarks

/-- What was made since `m` is this tree, with the places of its nodes. -/
structure Fits (ns : α → List (Expr Mark)) (m : Maker) (x : Made α) (a : α) (m' : Maker) :
    Prop where
  tree : x.tree = a
  nodes : x.places.map Prod.fst = ns a
  within : Within m m' x.places

theorem Fits.widen (h : Fits ns m x a m') (hl : Later m' m'') : Fits ns m x a m'' :=
  ⟨h.tree, h.nodes, h.within.widen hl⟩

theorem Fits.since (h : Fits ns m' x a m'') (hl : Later m m') : Fits ns m x a m'' :=
  ⟨h.tree, h.nodes, (Within.nil hl).append h.within⟩

theorem Fits.empty {a : α} {ns : α → List (Expr Mark)} (hn : ns a = []) (hl : Later m m') :
    Fits ns m ⟨a, []⟩ a m' := ⟨rfl, hn.symm, .nil hl⟩

theorem Fits.map {f : α → β} (h : Fits ns m x a m') (hn : ns' (f a) = ns a) :
    Fits ns' m (x.map f) (f a) m' := ⟨congrArg f h.tree, h.nodes.trans hn.symm, h.within⟩

theorem Fits.join {f : α → β → γ} (h : Fits ns m x a m') (h' : Fits ns' m' y b m'')
    (hn : ns'' (f a b) = ns a ++ ns' b) : Fits ns'' m (x.join f y) (f a b) m'' := by
  refine ⟨congrArg₂ f h.tree h'.tree, ?_, h.within.append h'.within⟩
  rw [Made.join, List.map_append, h.nodes, h'.nodes, hn]

theorem Fits.append (h : Fits ns m x a m') (h' : Fits ns' m' y b m'') :
    Fits (fun p : _ × _ => ns p.1 ++ ns' p.2) m (x.join Prod.mk y) (a, b) m'' := h.join h' rfl

theorem Fits.make (h : Fits ns m x a m') (hn : node.nodes = node :: ns a)
    (hm : node.mark? = none) :
    Fits Expr.nodes m ⟨node, (node, m'.next) :: x.places⟩ node m'.succ := by
  refine ⟨rfl, ?_, h.within.make (.refl _) hm⟩
  rw [List.map_cons, h.nodes, hn]

theorem Fits.literal (v : Option Literal) (hl : Later m m') :
    Fits Expr.nodes m ⟨.literal v, [(.literal v, m'.next)]⟩ (.literal v) m'.succ :=
  ⟨rfl, rfl, (Within.nil hl).make (.refl _) rfl⟩

def referred (m : Maker) : Maker :=
  { m with parser := { m.parser with fresh := m.parser.fresh + 1 } }

theorem later_referred (m : Maker) : Later m m.referred := ⟨Nat.le_refl _, Nat.le_succ _⟩

theorem Fits.refer {node : Expr Mark} (hn : node.nodes = [node])
    (hm : node.mark? = some m.parser.fresh) :
    Fits Expr.nodes m ⟨node, [(node, m.next)]⟩ node m.referred.succ := by
  refine ⟨rfl, hn.symm, (later_referred m).trans (later_succ _), .single m.next, ?_⟩
  rw [Maker.marks, List.filterMap_cons, hm]
  exact .single m.parser.fresh

theorem Fits.assign (ht : Fits Expr.nodes m t (.var ref) m') (hv : Fits Expr.nodes m' x e m'') :
    Fits Expr.nodes m ⟨.assign ref e, (.assign ref e, m''.next) :: x.places⟩ (.assign ref e)
      m''.succ := by
  obtain ⟨place, hplace, hnode⟩ := List.map_eq_singleton_iff.1 ht.nodes
  have hboth := ht.within.append hv.within
  rw [hplace] at hboth
  refine ⟨rfl, ?_, hboth.remake ?_⟩
  · rw [List.map_cons, hv.nodes]
    rfl
  · rw [hnode]
    rfl

theorem Fits.set (ht : Fits Expr.nodes m t (.get o p) m') (hv : Fits Expr.nodes m' x e m'') :
    Fits Expr.nodes m ⟨.set o p e, (.set o p e, m''.next) :: (t.places.tail ++ x.places)⟩
      (.set o p e) m''.succ := by
  have hboth := ht.within.append hv.within
  refine ⟨rfl, ?_, hboth.make ((List.tail_sublist _).append (.refl _)) rfl⟩
  rw [List.map_cons, List.map_append, List.map_tail, ht.nodes, hv.nodes]
  rfl

/-- The maker ends as the parser ends, with related results. -/
inductive Meets (m : Maker) (R : γ → α → Maker → Prop) :
    EStateM.Result Parser.Stop Maker γ → EStateM.Result Parser.Stop Parser α → Prop where
  | ok : Later m m' → R c a m' → Meets m R (.ok c m') (.ok a m'.parser)
  | error : Later m m' → Meets m R (.error e m') (.error e m'.parser)

theorem Meets.after {R : γ → α → Maker → Prop} (hl : Later m m') (h : Meets m' R r r') :
    Meets m R r r' := by
  cases h with
  | ok hl' hr => exact .ok (hl.trans hl') hr
  | error hl' => exact .error (hl.trans hl')

def Along (P : Make γ) (Q : Parse α) (m : Maker) (R : γ → α → Maker → Prop) : Prop :=
  Meets m R (P m) (Q m.parser)

theorem Along.pure {R : γ → α → Maker → Prop} (h : R c a m) :
    Along (Pure.pure c) (Pure.pure a) m R := Meets.ok (.refl m) h

theorem Along.stop {R : γ → α → Maker → Prop} (m : Maker) :
    Along (throw .exhausted) (throw .exhausted) m R := Meets.error (.refl m)

theorem Along.bind {P : Make γ} {Q : Parse α} {F : γ → Make δ} {G : α → Parse β}
    {R : γ → α → Maker → Prop} {S : δ → β → Maker → Prop} (h : Along P Q m R)
    (hF : ∀ c a m', Later m m' → R c a m' → Along (F c) (G a) m' S) :
    Along (P >>= F) (Q >>= G) m S := by
  change Meets m S (EStateM.bind P F m) (EStateM.bind Q G m.parser)
  unfold Along at h
  unfold EStateM.bind
  generalize P m = r, Q m.parser = r' at h
  cases h with
  | ok hl hr => exact (hF _ _ _ hl hr).after hl
  | error hl => exact .error hl

theorem Along.tryCatch {P : Make γ} {Q : Parse α} {F : Parser.Stop → Make γ}
    {G : Parser.Stop → Parse α} {R : γ → α → Maker → Prop} (h : Along P Q m R)
    (hF : ∀ e m', Along (F e) (G e) m' R) :
    Along (MonadExcept.tryCatch P F) (MonadExcept.tryCatch Q G) m R := by
  change Meets m R (EStateM.tryCatch P F m) (EStateM.tryCatch Q G m.parser)
  unfold Along at h
  unfold EStateM.tryCatch
  generalize P m = r, Q m.parser = r' at h ⊢
  cases h with
  | ok hl hr => exact .ok hl hr
  | error hl => exact (hF _ _).after hl

theorem Along.map {P : Make γ} {Q : Parse α} {F : γ → δ} {G : α → β} {R : γ → α → Maker → Prop}
    {S : δ → β → Maker → Prop} (h : Along P Q m R)
    (hF : ∀ c a m', Later m m' → R c a m' → S (F c) (G a) m') :
    Along (P >>= fun c => Pure.pure (F c)) (Q >>= fun a => Pure.pure (G a)) m S :=
  h.bind fun c a m' hl hr => .pure (hF c a m' hl hr)

theorem Along.lift {Q : Parse α} (hQ : ∀ p, Treads Q p) (m : Maker) :
    Along (lift Q) Q m fun c a _ => c = a := by
  have htreads := hQ m.parser
  unfold Along Maker.lift
  cases hr : Q m.parser with
  | ok a p => exact .ok ⟨Nat.le_refl _, (htreads.returns hr).fresh⟩ rfl
  | error e p =>
    have hl : Later m { m with parser := p } := ⟨Nat.le_refl _, (htreads.fails hr).fresh⟩
    exact .error hl

theorem Along.step {Q : Parse α} {F : α → Make δ} {G : α → Parse β} {S : δ → β → Maker → Prop}
    (hQ : ∀ p, Treads Q p) (h : ∀ a m', Later m m' → Along (F a) (G a) m' S) :
    Along (Maker.lift Q >>= F) (Q >>= G) m S := by
  apply (Along.lift hQ m).bind
  intro c a m' hl hca
  rw [hca]
  exact h a m' hl

theorem Along.reject {R : γ → α → Maker → Prop} (t : Token) (message : Text) (m : Maker) :
    Along (Maker.lift (reject t message)) (reject t message) m R := by
  have hl : Later m { m with parser := m.parser.fault ⟨t, message⟩ } :=
    ⟨Nat.le_refl _, Nat.le_refl _⟩
  exact Meets.error hl

theorem Along.ite {c : Prop} [Decidable c] {P P' : Make γ} {Q Q' : Parse α}
    {R : γ → α → Maker → Prop} (h : Along P Q m R) (h' : Along P' Q' m R) :
    Along (if c then P else P') (if c then Q else Q') m R := by
  split
  · exact h
  · exact h'

theorem Along.make {R : Made (Expr Mark) → Expr Mark → Maker → Prop}
    (h : R ⟨node, (node, m.next) :: below⟩ node m.succ) :
    Along (make node below) (Pure.pure node) m R := Meets.ok (later_succ m) h

theorem Along.making {F : Made (Expr Mark) → Make δ} {Q : Parse β} {S : δ → β → Maker → Prop}
    (h : Along (F ⟨node, (node, m.next) :: below⟩) Q m.succ S) :
    Along (Maker.make node below >>= F) Q m S := Meets.after (later_succ m) h

theorem Along.since {P : Make (Made α)} {Q : Parse α} (hl : Later m₀ m)
    (h : Along P Q m (Fits ns m)) : Along P Q m (Fits ns m₀) := by
  unfold Along at h ⊢
  generalize P m = r, Q m.parser = r' at h ⊢
  cases h with
  | ok hm hx => exact .ok hm (hx.since hl)
  | error hm => exact .error hm

theorem Along.recast {P : Make (Made α)} {Q : Parse α} {f : α → β} {ns' : β → List (Expr Mark)}
    (h : Along P Q m (Fits ns m₀)) (hn : ∀ a, ns' (f a) = ns a) :
    Along (Made.map f <$> P) (f <$> Q) m (Fits ns' m₀) :=
  h.map fun _ a _ _ hx => hx.map (hn a)

theorem Along.refer {f : Reference Mark → Expr Mark} (t : Token) (m : Maker)
    (hn : ∀ ref, (f ref).nodes = [f ref]) (hm : ∀ ref, (f ref).mark? = some ref.mark) :
    Along (do
        let ref ← Maker.lift (LoxLang.Parser.refer t)
        Maker.make (f ref) [])
      (do
        let ref ← LoxLang.Parser.refer t
        return f ref) m (Fits Expr.nodes m) :=
  Meets.after (later_referred m) (Along.make (m := m.referred) (.refer (hn _) (hm _)))

end Maker

end LoxLang
