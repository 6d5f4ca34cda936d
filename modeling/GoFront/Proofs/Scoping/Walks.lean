import GoFront.Proofs.Scoping.Plan
import GoFront.Tree.Shape

/-!
The plan of a tree, and that binding runs it.

`Expr.plan` and its companions list the visits of `Expr.resolve` and its companions. That a walk runs a
plan is `Follows`: it leaves the same state, the plan of its outcome is the outcome of the plan, and
the outcome of the plan determines its own.
-/

namespace GoFront

open Scope

/-! ### Plans of trees -/

/-- The names of some fields in one role, list by list. -/
def Field.namesPlan (role : Role) (fs : List (Field Ident)) : Plan :=
  .list (fs.map fun f => .visits role f.names)

/-- The role of the name of a function: methods and `init` functions are not declared. -/
def Decl.nameRole (recv : Option (FieldList Ident)) (name : Ident) : Role :=
  if recv.isNone ∧ name.name ≠ "init" then .declared .fun else .plain

/-- A walk over the names of some fields, list by list. -/
def Field.walkNames (role : Role) (fs : List (Field Ident)) : Resolver (List (Field Ident)) :=
  fs.mapM fun f => return { f with names := ← f.names.mapM role.walk }

mutual

def Expr.plan : Expr Ident → Plan
  | .bad _ _ => .stop
  | .basicLit _ => .stop
  | .ident i => .visit .used i
  | .ellipsis _ elt => Expr.optionPlan elt
  | .funcLit ty body => .function .stop ty.plan body.plan
  | .compositeLit ty _ elts _ _ => .both (Expr.optionPlan ty) (Expr.elementsPlan elts)
  | .paren _ x _ => x.plan
  | .selector x sel => .both x.plan (.visit .plain sel)
  | .index x _ index _ => .both x.plan index.plan
  | .slice x _ low high max _ _ =>
    .both x.plan (.both (Expr.optionPlan low) (.both (Expr.optionPlan high) (Expr.optionPlan max)))
  | .typeAssert x _ ty _ => .both x.plan (Expr.optionPlan ty)
  | .call c => c.plan
  | .star _ x => x.plan
  | .unary _ _ x => x.plan
  | .binary x _ _ y => .both x.plan y.plan
  | .keyValue key _ value => .both key.plan value.plan
  | .arrayType _ len elt => .both (Expr.optionPlan len) elt.plan
  | .structType _ fields _ => fields.plan .plain
  | .funcType ty => .function .stop ty.plan .stop
  | .interfaceType _ methods _ => methods.plan .plain
  | .mapType _ key value => .both key.plan value.plan
  | .chanType _ _ _ value => value.plan

def Expr.optionPlan : Option (Expr Ident) → Plan
  | none => .stop
  | some x => x.plan

def Expr.listPlan : List (Expr Ident) → Plan
  | [] => .stop
  | x :: xs => .both x.plan (Expr.listPlan xs)

/-- The plan of the elements of a composite literal. -/
def Expr.elementsPlan : List (Expr Ident) → Plan
  | [] => .stop
  | .keyValue (.ident key) _ value :: xs =>
    .both (.both (.visit .key key) value.plan) (Expr.elementsPlan xs)
  | x :: xs => .both x.plan (Expr.elementsPlan xs)

/-- The plan of the left side of `:=`. -/
def Expr.targetsPlan : List (Expr Ident) → Plan
  | [] => .stop
  | .ident i :: xs => .both (.visit .redeclared i) (Expr.targetsPlan xs)
  | x :: xs => .both x.plan (Expr.targetsPlan xs)

def Call.plan : Call Ident → Plan
  | ⟨fn, _, args, _, _⟩ => .both fn.plan (Expr.listPlan args)

def FuncType.plan : FuncType Ident → Plan
  | ⟨_, params, results⟩ => .both (params.plan (.declared .var)) (FieldList.optionPlan results)

/-- The plan of some fields: the types of all, and then the names in a role. -/
def FieldList.plan (role : Scope.Role) : FieldList Ident → Plan
  | ⟨_, list, _⟩ => .both (Field.typesPlan list) (Field.namesPlan role list)

/-- The plan of optional parameters. -/
def FieldList.optionPlan : Option (FieldList Ident) → Plan
  | none => .stop
  | some l => l.plan (.declared .var)

def Field.typesPlan : List (Field Ident) → Plan
  | [] => .stop
  | ⟨_, _, ty, _, _⟩ :: fs => .both ty.plan (Field.typesPlan fs)

def Block.plan : Block Ident → Plan
  | ⟨_, list, _⟩ => Stmt.listPlan list

def Block.optionPlan : Option (Block Ident) → Plan
  | none => .stop
  | some b => b.plan

def Stmt.plan : Stmt Ident → Plan
  | .bad _ _ => .stop
  | .empty _ _ => .stop
  | .branch _ _ label => .visits .plain label.toList
  | .decl d => d.localPlan
  | .labeled label _ stmt => .both (.visit .plain label) stmt.plan
  | .expr x => x.plan
  | .send chan _ value => .both chan.plan value.plan
  | .incDec x _ _ => x.plan
  | .assign lhs _ tok rhs =>
    .both (Expr.listPlan rhs) (if tok = .define then Expr.targetsPlan lhs else Expr.listPlan lhs)
  | .go _ call => call.plan
  | .defer _ call => call.plan
  | .ret _ results => Expr.listPlan results
  | .block b => .scope b.plan
  | .ifElse _ init cond body elseBranch =>
    .scope (.both (Stmt.optionPlan init)
      (.both cond.plan (.both (.scope body.plan) (Stmt.optionPlan elseBranch))))
  | .caseClause _ list _ body => .both (Expr.listPlan list) (.scope (Stmt.listPlan body))
  | .switch _ init tag body =>
    .scope (.both (Stmt.optionPlan init) (.both (Expr.optionPlan tag) body.plan))
  | .typeSwitch _ init assign body =>
    .scope (.both (Stmt.optionPlan init) (.both assign.plan body.plan))
  | .commClause _ comm _ body => .scope (.both (Stmt.optionPlan comm) (Stmt.listPlan body))
  | .select _ body => body.plan
  | .loop _ init cond post body =>
    .scope (.both (Stmt.optionPlan init)
      (.both (Expr.optionPlan cond) (.both (Stmt.optionPlan post) (.scope body.plan))))
  | .range _ key value _ tok x body =>
    .scope (.both (.both x.plan (.both (Expr.rangeVarPlan tok key) (Expr.rangeVarPlan tok value)))
      (.scope body.plan))

/-- The plan of a variable of a range clause. Under `:=` anything but a name is passed by. -/
def Expr.rangeVarPlan (tok : Token.Kind) : Option (Expr Ident) → Plan
  | none => .stop
  | some (.ident i) => .visit (if tok = .define then .declared .var else .used) i
  | some x => if tok = .define then x.plan.silent else x.plan

def Stmt.optionPlan : Option (Stmt Ident) → Plan
  | none => .stop
  | some s => s.plan

def Stmt.listPlan : List (Stmt Ident) → Plan
  | [] => .stop
  | s :: ss => .both s.plan (Stmt.listPlan ss)

/-- The plan of declarations inside a function. -/
def Spec.localPlan (tok : Token.Kind) : List (Spec Ident) → Plan
  | [] => .stop
  | .importSpec s :: specs => .both (.visits .plain s.name.toList) (Spec.localPlan tok specs)
  | .valueSpec _ names ty values _ :: specs =>
    .both (.both (.both (Expr.optionPlan ty) (Expr.listPlan values))
      (.visits (.declared (valueKind tok)) names)) (Spec.localPlan tok specs)
  | .typeSpec _ name _ ty _ :: specs =>
    .both (.both (.visit (.declared .typ) name) ty.plan) (Spec.localPlan tok specs)

/-- The plan of a declaration inside a function; that of a function is passed by. -/
def Decl.localPlan : Decl Ident → Plan
  | .bad _ _ => .stop
  | .group ⟨_, _, tok, _, specs, _⟩ => Spec.localPlan tok specs
  | .func _ recv name ty body =>
    (Plan.both (.function (FieldList.optionPlan recv) ty.plan (Block.optionPlan body))
      (.visit (Decl.nameRole recv name) name)).silent

end

/-! ### Plans of the package -/

/-- The plan of the names that a spec of the package declares. -/
def Spec.namePlan (tok : Token.Kind) : Spec Ident → Plan
  | .importSpec s => .visits .plain s.name.toList
  | .valueSpec _ names _ _ _ => .visits (.declared (valueKind tok)) names
  | .typeSpec _ name _ _ _ => .visit (.declared .typ) name

/-- The plan of the names that a declaration of the package declares. -/
def Decl.namePlan : Decl Ident → Plan
  | .bad _ _ => .stop
  | .group g => .list (g.specs.map (Spec.namePlan g.tok))
  | .func _ recv name _ _ => .visit (Decl.nameRole recv name) name

/-- The plan of the types and values of a spec of the package. -/
def Spec.plan : Spec Ident → Plan
  | .importSpec _ => .stop
  | .valueSpec _ _ ty values _ => .both (Expr.optionPlan ty) (Expr.listPlan values)
  | .typeSpec _ _ _ ty _ => ty.plan

/-- The plan of what a declaration of the package declares. -/
def Decl.plan : Decl Ident → Plan
  | .bad _ _ => .stop
  | .group g => .list (g.specs.map Spec.plan)
  | .func _ recv _ ty body => .function (FieldList.optionPlan recv) ty.plan (Block.optionPlan body)

/-- The plan of the declarations of a package: all names, and then all that is declared. -/
def Decl.listPlan (ds : List (Decl Ident)) : Plan :=
  .both (.list (ds.map Decl.namePlan)) (.list (ds.map Decl.plan))

/-! ### The forms of expressions -/

/-- Whether an expression gives the value of a key that is a name. -/
def Expr.isKeyed {ι : Type} : Expr ι → Bool
  | .keyValue (.ident _) _ _ => true
  | _ => false

theorem Expr.isKeyed_map {ι κ : Type} (f : ι → κ) (x : Expr ι) : (x.map f).isKeyed = x.isKeyed := by
  cases x with
  | keyValue key colon value => cases key <;> rfl
  | _ => rfl

theorem Expr.isIdent_map {ι κ : Type} (f : ι → κ) (x : Expr ι) : (x.map f).isIdent = x.isIdent := by
  cases x <;> rfl

theorem Expr.elementsPlan_cons {x : Expr Ident} (unkeyed : x.isKeyed = false) (xs : List (Expr Ident)) :
    Expr.elementsPlan (x :: xs) = .both x.plan (Expr.elementsPlan xs) := by
  cases x with
  | keyValue key colon value => cases key <;> first | rfl | cases unkeyed
  | _ => rfl

theorem Expr.targetsPlan_cons {x : Expr Ident} (unnamed : x.isIdent = false) (xs : List (Expr Ident)) :
    Expr.targetsPlan (x :: xs) = .both x.plan (Expr.targetsPlan xs) := by
  cases x <;> first | rfl | cases unnamed

theorem Expr.resolveElements_cons {x : Expr Ident} (unkeyed : x.isKeyed = false)
    (xs : List (Expr Ident)) :
    Expr.resolveElements (x :: xs) = (do
      let x ← x.resolve
      return x :: (← Expr.resolveElements xs)) := by
  cases x with
  | keyValue key colon value => cases key <;> first | rfl | cases unkeyed
  | _ => rfl

theorem Expr.resolveTargets_cons {x : Expr Ident} (unnamed : x.isIdent = false)
    (xs : List (Expr Ident)) :
    Expr.resolveTargets (x :: xs) = (do
      let x ← x.resolve
      return x :: (← Expr.resolveTargets xs)) := by
  cases x <;> first | rfl | cases unnamed

/-- Binding leaves an expression of its form. -/
theorem Expr.isKeyed_resolve (x : Expr Ident) (s : State) : (x.resolve s).1.isKeyed = x.isKeyed := by
  rw [← Expr.isKeyed_map Ident.unbind, Expr.unbind_resolve, Expr.isKeyed_map]

theorem Expr.isIdent_resolve (x : Expr Ident) (s : State) : (x.resolve s).1.isIdent = x.isIdent := by
  rw [← Expr.isIdent_map Ident.unbind, Expr.unbind_resolve, Expr.isIdent_map]

/-! ### Walks that run a plan -/

namespace Scope

variable {α β : Type}

/-- A walk over a tree runs the plan of the tree: it leaves the same state, the plan of its outcome is
the outcome of the plan, and this determines its own outcome. -/
structure Follows (view : α → Plan) (walk : Resolver α) (a : α) : Prop where
  state : ∀ s, (walk s).2 = ((view a).run s).2
  seen : ∀ s, view (walk s).1 = ((view a).run s).1
  same : ∀ s t, ((view a).run s).1 = ((view a).run t).1 → (walk s).1 = (walk t).1
  still : ∀ s, ((view a).run s).1 = view a → (walk s).1 = a

namespace Follows

variable {view : α → Plan} {walk : Resolver α} {a : α} {viewB : β → Plan} {walkB : Resolver β} {b : β}

/-- A walk that does nothing runs a plan that does nothing. -/
theorem idle (nothing : ∀ s, (view a).run s = (view a, s)) : Follows view (pure a) a where
  state _ := by simp [nothing]
  seen _ := by simp [nothing]
  same _ _ _ := rfl
  still _ _ := rfl

theorem nothing : Follows (fun _ : Unit => Plan.stop) (pure ()) () := idle fun _ => rfl

/-- What a walk yields may be put into a tree that has the same plan. -/
theorem mapOutcome (follows : Follows view walk a) (f : α → β) (same : viewB (f a) = view a)
    (after : ∀ s, viewB (f (walk s).1) = view (walk s).1) :
    Follows viewB (do return f (← walk)) (f a) where
  state s := by simpa [same] using follows.state s
  seen s := by simpa [same, after] using follows.seen s
  same s t equal := congrArg f (follows.same s t (by simpa [same] using equal))
  still s fixed := congrArg f (follows.still s (by simpa [same] using fixed))

theorem map (follows : Follows view walk a) (f : α → β) (same : ∀ a, viewB (f a) = view a) :
    Follows viewB (do return f (← walk)) (f a) :=
  follows.mapOutcome f (same a) fun _ => same _

/-- Two walks in a row that do not depend on each other. -/
theorem and (first : Follows view walk a) (second : Follows viewB walkB b) :
    Follows (fun r : α × β => .both (view r.1) (viewB r.2)) (do
      let a ← walk
      return (a, ← walkB)) (a, b) where
  state s := by simp [first.state, second.state]
  seen s := by simp [first.state, first.seen, second.seen]
  same s t equal := by
    simp only [Plan.run_both, Plan.both.injEq] at equal
    simp only [bind_apply, pure_apply]
    rw [first.same s t equal.1, first.state, first.state, second.same _ _ equal.2]
  still s fixed := by
    simp only [Plan.run_both, Plan.both.injEq] at fixed
    simp only [bind_apply, pure_apply]
    rw [first.still s fixed.1, first.state, second.still _ fixed.2]

theorem scope (follows : Follows view walk a) :
    Follows (fun a => .scope (view a)) (inScope walk) a where
  state s := congrArg State.outside (follows.state s.inside)
  seen s := congrArg Plan.scope (follows.seen s.inside)
  same s t equal := follows.same s.inside t.inside (Plan.scope.inj equal)
  still s fixed := follows.still s.inside (Plan.scope.inj fixed)

/-- Two walks over one tree, each over parts that the other one does not touch. -/
theorem andThen {viewA : α → Plan} {next : α → Resolver α} (first : Follows view walk a)
    (second : ∀ a, Follows viewA (next a) a) (apart : ∀ s, viewA (walk s).1 = viewA a)
    (apart' : ∀ a s, view (next a s).1 = view a) :
    Follows (fun a => .both (view a) (viewA a)) (walk >>= next) a where
  state s := by simp [(second _).state, apart, first.state]
  seen s := by simp [(second _).seen, apart, apart', first.state, first.seen]
  same s t equal := by
    simp only [Plan.run_both, Plan.both.injEq] at equal
    have midway : (walk s).1 = (walk t).1 := first.same s t equal.1
    simp only [bind_apply]
    rw [midway]
    apply (second _).same
    rw [apart, first.state, first.state, equal.2]
  still s fixed := by
    simp only [Plan.run_both, Plan.both.injEq] at fixed
    have midway : (walk s).1 = a := first.still s fixed.1
    simp only [bind_apply]
    rw [midway]
    apply (second _).still
    rw [first.state, fixed.2]

/-- Walks over the entries of a list, one after the other. -/
theorem mapM {next : α → Resolver α} (each : ∀ a, Follows view (next a) a) (as : List α) :
    Follows (fun as => .list (as.map view)) (as.mapM next) as := by
  induction as with
  | nil => exact idle fun _ => rfl
  | cons a as ih =>
      rw [List.mapM_cons]
      exact ((each a).and ih).map (fun r => r.1 :: r.2) fun _ => rfl

/-- An identifier is visited in its role. -/
theorem visit (role : Role) (i : Ident) : Follows (.visit role) (role.walk i) i where
  state _ := rfl
  seen _ := rfl
  same _ _ equal := (Plan.visit.inj equal).2
  still _ fixed := (Plan.visit.inj fixed).2

theorem visits (role : Role) (is : List Ident) : Follows (.visits role) (is.mapM role.walk) is :=
  mapM (visit role) is

/-- The names of some fields are visited in a role, list by list. -/
theorem names (role : Role) (fs : List (Field Ident)) :
    Follows (Field.namesPlan role) (Field.walkNames role fs) fs := by
  have each (f : Field Ident) : Follows (fun f : Field Ident => .visits role f.names)
      (do return { f with names := ← f.names.mapM role.walk }) f := by
    obtain ⟨doc, names, ty, tag, comment⟩ := f
    exact (visits role names).map (fun names => Field.mk doc names ty tag comment) fun _ => rfl
  exact mapM each fs

end Follows

end Scope

/-! ### Names and types of fields -/

theorem Field.namesPlan_eq (role : Role) (fs : List (Field Ident)) :
    Field.namesPlan role fs = .list ((fs.map Field.names).map (.visits role)) := by
  rw [List.map_map]
  rfl

theorem Field.typesPlan_eq (fs : List (Field Ident)) :
    Field.typesPlan fs = .list ((fs.map Field.ty).map Expr.plan) := by
  induction fs with
  | nil => rfl
  | cons f fs ih =>
      obtain ⟨doc, names, ty, tag, comment⟩ := f
      exact congrArg (Plan.both ty.plan) ih

theorem Field.names_resolveTypes (fs : List (Field Ident)) (s : State) :
    (Field.resolveTypes fs s).1.map Field.names = fs.map Field.names := by
  induction fs generalizing s with
  | nil => rfl
  | cons f fs ih =>
      obtain ⟨doc, names, ty, tag, comment⟩ := f
      exact congrArg (List.cons names) (ih _)

/-- Binding the types of some fields leaves their names alone. -/
theorem Field.namesPlan_resolveTypes (role : Role) (fs : List (Field Ident)) (s : State) :
    Field.namesPlan role (Field.resolveTypes fs s).1 = Field.namesPlan role fs := by
  rw [Field.namesPlan_eq, Field.names_resolveTypes, ← Field.namesPlan_eq]

/-- Binding the names of some fields leaves their types alone. -/
theorem Field.typesPlan_names (role : Role) (fs : List (Field Ident)) (s : State) :
    Field.typesPlan (Field.walkNames role fs s).1 = Field.typesPlan fs := by
  have types : (Field.walkNames role fs s).1.map Field.ty = fs.map Field.ty :=
    map_mapM (fun _ _ => rfl) fs s
  rw [Field.typesPlan_eq, types, ← Field.typesPlan_eq]

/-- A walk over the types of some fields runs the plan that leaves their names alone. -/
theorem Scope.Follows.unnamed {fs : List (Field Ident)}
    (types : Follows Field.typesPlan (Field.resolveTypes fs) fs) :
    Follows (fun fs => .both (Field.typesPlan fs) (Field.namesPlan .plain fs))
      (Field.resolveTypes fs) fs := by
  have still (fs : List (Field Ident)) : Follows (Field.namesPlan .plain) (pure fs) fs := by
    refine idle fun s => ?_
    rw [Field.namesPlan_eq]
    exact Plan.run_list (by simp) s
  exact types.andThen still (Field.namesPlan_resolveTypes .plain fs) fun _ _ => rfl

theorem Expr.rangeVarPlan_some {tok : Token.Kind} (assigns : tok ≠ .define) (x : Expr Ident) :
    Expr.rangeVarPlan tok (some x) = x.plan := by
  cases x <;> simp [Expr.rangeVarPlan, Expr.plan, assigns]

open Follows

/-! ### Expressions and statements -/

mutual

theorem Expr.follows (x : Expr Ident) : Follows Expr.plan x.resolve x := by
  cases x with
  | bad start stop => exact idle fun _ => rfl
  | basicLit l => exact idle fun _ => rfl
  | ident i => exact (visit .used i).map Expr.ident fun _ => rfl
  | ellipsis e elt => exact (Expr.follows_option elt).map (Expr.ellipsis e) fun _ => rfl
  | funcLit ty body =>
      exact (nothing.and (ty.follows.and body.follows)).scope.map
        (fun r => Expr.funcLit r.2.1 r.2.2) fun _ => rfl
  | compositeLit ty lbrace elts rbrace incomplete =>
      exact ((Expr.follows_option ty).and (Expr.follows_elements elts)).map
        (fun r => Expr.compositeLit r.1 lbrace r.2 rbrace incomplete) fun _ => rfl
  | paren lparen x rparen => exact x.follows.map (Expr.paren lparen · rparen) fun _ => rfl
  | selector x sel =>
      exact (x.follows.and (visit .plain sel)).map (fun r => Expr.selector r.1 r.2) fun _ => rfl
  | index x lbrack index rbrack =>
      exact (x.follows.and index.follows).map (fun r => Expr.index r.1 lbrack r.2 rbrack) fun _ => rfl
  | slice x lbrack low high max slice3 rbrack =>
      have bounds := (Expr.follows_option low).and
        ((Expr.follows_option high).and (Expr.follows_option max))
      exact (x.follows.and bounds).map
        (fun r => Expr.slice r.1 lbrack r.2.1 r.2.2.1 r.2.2.2 slice3 rbrack) fun _ => rfl
  | typeAssert x lparen ty rparen =>
      exact (x.follows.and (Expr.follows_option ty)).map
        (fun r => Expr.typeAssert r.1 lparen r.2 rparen) fun _ => rfl
  | call c => exact c.follows.map Expr.call fun _ => rfl
  | star place x => exact x.follows.map (Expr.star place) fun _ => rfl
  | unary opPos op x => exact x.follows.map (Expr.unary opPos op) fun _ => rfl
  | binary x opPos op y =>
      exact (x.follows.and y.follows).map (fun r => Expr.binary r.1 opPos op r.2) fun _ => rfl
  | keyValue key colon value =>
      exact (key.follows.and value.follows).map (fun r => Expr.keyValue r.1 colon r.2) fun _ => rfl
  | arrayType lbrack len elt =>
      exact ((Expr.follows_option len).and elt.follows).map
        (fun r => Expr.arrayType lbrack r.1 r.2) fun _ => rfl
  | structType structPos fields incomplete =>
      obtain ⟨opening, list, closing⟩ := fields
      exact (Field.follows_types list).unnamed.map
        (fun list => Expr.structType structPos ⟨opening, list, closing⟩ incomplete) fun _ => rfl
  | funcType ty =>
      exact (nothing.and (ty.follows.and nothing)).scope.map (fun r => Expr.funcType r.2.1) fun _ => rfl
  | interfaceType interface methods incomplete =>
      obtain ⟨opening, list, closing⟩ := methods
      exact (Field.follows_types list).unnamed.map
        (fun list => Expr.interfaceType interface ⟨opening, list, closing⟩ incomplete) fun _ => rfl
  | mapType map key value =>
      exact (key.follows.and value.follows).map (fun r => Expr.mapType map r.1 r.2) fun _ => rfl
  | chanType start arrow dir value =>
      exact value.follows.map (Expr.chanType start arrow dir) fun _ => rfl

theorem Expr.follows_option (x : Option (Expr Ident)) :
    Follows Expr.optionPlan (Expr.resolveOption x) x := by
  cases x with
  | none => exact idle fun _ => rfl
  | some x => exact x.follows.map some fun _ => rfl

theorem Expr.follows_list (xs : List (Expr Ident)) : Follows Expr.listPlan (Expr.resolveList xs) xs := by
  cases xs with
  | nil => exact idle fun _ => rfl
  | cons x xs => exact (x.follows.and (Expr.follows_list xs)).map (fun r => r.1 :: r.2) fun _ => rfl

theorem Expr.follows_elements (xs : List (Expr Ident)) :
    Follows Expr.elementsPlan (Expr.resolveElements xs) xs := by
  cases xs with
  | nil => exact idle fun _ => rfl
  | cons x xs =>
      have rest := Expr.follows_elements xs
      cases keyed : x.isKeyed with
      | true =>
          match x, keyed with
          | .keyValue (.ident key) colon value, _ =>
              exact (((visit .key key).and value.follows).and rest).map
                (fun r => Expr.keyValue (.ident r.1.1) colon r.1.2 :: r.2) fun _ => rfl
      | false =>
          rw [Expr.resolveElements_cons keyed]
          refine (x.follows.and rest).mapOutcome (fun r => r.1 :: r.2)
            (Expr.elementsPlan_cons keyed xs) fun s => Expr.elementsPlan_cons ?_ _
          rw [← keyed]
          exact x.isKeyed_resolve s

theorem Expr.follows_targets (xs : List (Expr Ident)) :
    Follows Expr.targetsPlan (Expr.resolveTargets xs) xs := by
  cases xs with
  | nil => exact idle fun _ => rfl
  | cons x xs =>
      have rest := Expr.follows_targets xs
      cases named : x.isIdent with
      | true =>
          match x, named with
          | .ident i, _ =>
              exact ((visit .redeclared i).and rest).map (fun r => Expr.ident r.1 :: r.2) fun _ => rfl
      | false =>
          rw [Expr.resolveTargets_cons named]
          refine (x.follows.and rest).mapOutcome (fun r => r.1 :: r.2)
            (Expr.targetsPlan_cons named xs) fun s => Expr.targetsPlan_cons ?_ _
          rw [← named]
          exact x.isIdent_resolve s

theorem Call.follows (c : Call Ident) : Follows Call.plan c.resolve c := by
  obtain ⟨fn, lparen, args, ellipsis, rparen⟩ := c
  exact (fn.follows.and (Expr.follows_list args)).map
    (fun r => Call.mk r.1 lparen r.2 ellipsis rparen) fun _ => rfl

theorem FuncType.follows (ty : FuncType Ident) : Follows FuncType.plan ty.resolve ty := by
  obtain ⟨func, params, results⟩ := ty
  exact (params.follows.and (FieldList.follows_option results)).map
    (fun r => FuncType.mk func r.1 r.2) fun _ => rfl

theorem FieldList.follows (l : FieldList Ident) :
    Follows (FieldList.plan (.declared .var)) l.resolve l := by
  obtain ⟨opening, list, closing⟩ := l
  have walk := (Field.follows_types list).andThen (names (.declared .var))
    (Field.namesPlan_resolveTypes _ list) (Field.typesPlan_names (.declared .var))
  exact walk.map (fun list => FieldList.mk opening list closing) fun _ => rfl

theorem FieldList.follows_option (l : Option (FieldList Ident)) :
    Follows FieldList.optionPlan (FieldList.resolveOption l) l := by
  cases l with
  | none => exact idle fun _ => rfl
  | some l => exact l.follows.map some fun _ => rfl

theorem Field.follows_types (fs : List (Field Ident)) :
    Follows Field.typesPlan (Field.resolveTypes fs) fs := by
  match fs with
  | [] => exact idle fun _ => rfl
  | ⟨doc, names, ty, tag, comment⟩ :: fs =>
      exact (ty.follows.and (Field.follows_types fs)).map
        (fun r => Field.mk doc names r.1 tag comment :: r.2) fun _ => rfl

theorem Block.follows (b : Block Ident) : Follows Block.plan b.resolveInside b := by
  obtain ⟨lbrace, list, rbrace⟩ := b
  exact (Stmt.follows_list list).map (fun list => Block.mk lbrace list rbrace) fun _ => rfl

theorem Block.follows_option (b : Option (Block Ident)) :
    Follows Block.optionPlan (Block.resolveOption b) b := by
  cases b with
  | none => exact idle fun _ => rfl
  | some b => exact b.follows.map some fun _ => rfl

theorem Stmt.follows (t : Stmt Ident) : Follows Stmt.plan t.resolve t := by
  cases t with
  | bad start stop => exact idle fun _ => rfl
  | empty semicolon implicit => exact idle fun _ => rfl
  | branch tokPos tok label => exact idle fun _ => Plan.run_visits_plain _ _
  | decl d =>
      cases d with
      | bad start stop => exact idle fun _ => rfl
      | group g =>
          obtain ⟨doc, tokPos, tok, lparen, specs, rparen⟩ := g
          exact (Spec.follows_local tok specs).map
            (fun specs => Stmt.decl (.group ⟨doc, tokPos, tok, lparen, specs, rparen⟩)) fun _ => rfl
      | func doc recv name ty body => exact idle fun _ => Plan.run_silent _ _
  | labeled label colon t =>
      exact ((visit .plain label).and t.follows).map (fun r => Stmt.labeled r.1 colon r.2) fun _ => rfl
  | expr x => exact x.follows.map Stmt.expr fun _ => rfl
  | send chan arrow value =>
      exact (chan.follows.and value.follows).map (fun r => Stmt.send r.1 arrow r.2) fun _ => rfl
  | incDec x tokPos tok => exact x.follows.map (Stmt.incDec · tokPos tok) fun _ => rfl
  | assign lhs tokPos tok rhs =>
      by_cases define : tok = .define
      · subst define
        exact ((Expr.follows_list rhs).and (Expr.follows_targets lhs)).map
          (fun r => Stmt.assign r.2 tokPos .define r.1) fun _ => rfl
      · simp only [Stmt.resolve, if_neg define]
        exact ((Expr.follows_list rhs).and (Expr.follows_list lhs)).map
          (fun r => Stmt.assign r.2 tokPos tok r.1) fun _ => by simp only [Stmt.plan, if_neg define]
  | go goPos call => exact call.follows.map (Stmt.go goPos) fun _ => rfl
  | defer deferPos call => exact call.follows.map (Stmt.defer deferPos) fun _ => rfl
  | ret retPos results => exact (Expr.follows_list results).map (Stmt.ret retPos) fun _ => rfl
  | block b => exact b.follows.scope.map Stmt.block fun _ => rfl
  | ifElse ifPos init cond body elseBranch =>
      have branches := body.follows.scope.and (Stmt.follows_option elseBranch)
      exact ((Stmt.follows_option init).and (cond.follows.and branches)).scope.map
        (fun r => Stmt.ifElse ifPos r.1 r.2.1 r.2.2.1 r.2.2.2) fun _ => rfl
  | caseClause casePos list colon body =>
      exact ((Expr.follows_list list).and (Stmt.follows_list body).scope).map
        (fun r => Stmt.caseClause casePos r.1 colon r.2) fun _ => rfl
  | switch switchPos init tag body =>
      exact ((Stmt.follows_option init).and ((Expr.follows_option tag).and body.follows)).scope.map
        (fun r => Stmt.switch switchPos r.1 r.2.1 r.2.2) fun _ => rfl
  | typeSwitch switchPos init assign body =>
      exact ((Stmt.follows_option init).and (assign.follows.and body.follows)).scope.map
        (fun r => Stmt.typeSwitch switchPos r.1 r.2.1 r.2.2) fun _ => rfl
  | commClause casePos comm colon body =>
      exact ((Stmt.follows_option comm).and (Stmt.follows_list body)).scope.map
        (fun r => Stmt.commClause casePos r.1 colon r.2) fun _ => rfl
  | select selectPos body => exact body.follows.map (Stmt.select selectPos) fun _ => rfl
  | loop forPos init cond post body =>
      have round := (Stmt.follows_option post).and body.follows.scope
      exact ((Stmt.follows_option init).and ((Expr.follows_option cond).and round)).scope.map
        (fun r => Stmt.loop forPos r.1 r.2.1 r.2.2.1 r.2.2.2) fun _ => rfl
  | range forPos key value tokPos tok x body =>
      have header := x.follows.and ((Expr.follows_rangeVar tok key).and (Expr.follows_rangeVar tok value))
      exact (header.and body.follows.scope).scope.map
        (fun r => Stmt.range forPos r.1.2.1 r.1.2.2 tokPos tok r.1.1 r.2) fun _ => rfl

theorem Expr.follows_rangeVar (tok : Token.Kind) (x : Option (Expr Ident)) :
    Follows (Expr.rangeVarPlan tok) (Expr.resolveRangeVar tok x) x := by
  cases x with
  | none => exact idle fun _ => rfl
  | some x =>
      by_cases define : tok = .define
      · subst define
        cases x with
        | ident i =>
            exact (visit (.declared .var) i).map (fun i => some (Expr.ident i)) fun _ => rfl
        | _ => exact idle fun _ => Plan.run_silent _ _
      · simp only [Expr.resolveRangeVar, if_neg define]
        exact x.follows.map some fun x => Expr.rangeVarPlan_some define x

theorem Stmt.follows_option (t : Option (Stmt Ident)) :
    Follows Stmt.optionPlan (Stmt.resolveOption t) t := by
  cases t with
  | none => exact idle fun _ => rfl
  | some t => exact t.follows.map some fun _ => rfl

theorem Stmt.follows_list (ts : List (Stmt Ident)) : Follows Stmt.listPlan (Stmt.resolveList ts) ts := by
  cases ts with
  | nil => exact idle fun _ => rfl
  | cons t ts => exact (t.follows.and (Stmt.follows_list ts)).map (fun r => r.1 :: r.2) fun _ => rfl

theorem Spec.follows_local (tok : Token.Kind) (specs : List (Spec Ident)) :
    Follows (Spec.localPlan tok) (Spec.resolveLocal tok specs) specs := by
  match specs with
  | [] => exact idle fun _ => rfl
  | .importSpec s :: specs =>
      have name : Follows (fun s : ImportSpec Ident => .visits .plain s.name.toList) (pure s) s :=
        idle fun _ => Plan.run_visits_plain _ _
      exact (name.and (Spec.follows_local tok specs)).map (fun r => Spec.importSpec r.1 :: r.2) fun _ => rfl
  | .valueSpec doc names ty values comment :: specs =>
      have parts := ((Expr.follows_option ty).and (Expr.follows_list values)).and
        (Follows.visits (.declared (valueKind tok)) names)
      exact (parts.and (Spec.follows_local tok specs)).map
        (fun r => Spec.valueSpec doc r.1.2 r.1.1.1 r.1.1.2 comment :: r.2) fun _ => rfl
  | .typeSpec doc name assign ty comment :: specs =>
      exact (((visit (.declared .typ) name).and ty.follows).and (Spec.follows_local tok specs)).map
        (fun r => Spec.typeSpec doc r.1.1 assign r.1.2 comment :: r.2) fun _ => rfl

end

/-! ### Declarations of the package -/

theorem Spec.follows_declareTop (tok : Token.Kind) (spec : Spec Ident) :
    Follows (Spec.namePlan tok) (spec.declareTop tok) spec := by
  cases spec with
  | importSpec s => exact idle fun _ => Plan.run_visits_plain _ _
  | valueSpec doc names ty values comment =>
      exact (Follows.visits (.declared (valueKind tok)) names).map
        (fun names => Spec.valueSpec doc names ty values comment) fun _ => rfl
  | typeSpec doc name assign ty comment =>
      exact (visit (.declared .typ) name).map (fun name => Spec.typeSpec doc name assign ty comment)
        fun _ => rfl

theorem Decl.follows_declareTop (d : Decl Ident) : Follows Decl.namePlan d.declareTop d := by
  cases d with
  | bad start stop => exact idle fun _ => rfl
  | group g =>
      obtain ⟨doc, tokPos, tok, lparen, specs, rparen⟩ := g
      exact (mapM (Spec.follows_declareTop tok) specs).map
        (fun specs => Decl.group ⟨doc, tokPos, tok, lparen, specs, rparen⟩) fun _ => rfl
  | func doc recv name ty body =>
      by_cases declared : recv.isNone ∧ name.name ≠ "init"
      · rw [Decl.declareTop, if_pos declared]
        refine (visit (.declared .fun) name).mapOutcome (fun name => Decl.func doc recv name ty body)
          ?_ fun s => ?_
        · rw [Decl.namePlan, Decl.nameRole, if_pos declared]
        · rw [Decl.namePlan, Decl.nameRole,
            if_pos (by simpa [Role.walk, Role.declare_apply] using declared)]
      · rw [Decl.declareTop, if_neg declared]
        refine idle fun _ => ?_
        rw [Decl.namePlan, Decl.nameRole, if_neg declared]
        rfl

theorem Spec.follows_resolveTop (spec : Spec Ident) : Follows Spec.plan spec.resolveTop spec := by
  cases spec with
  | importSpec s => exact idle fun _ => rfl
  | valueSpec doc names ty values comment =>
      exact ((Expr.follows_option ty).and (Expr.follows_list values)).map
        (fun r => Spec.valueSpec doc names r.1 r.2 comment) fun _ => rfl
  | typeSpec doc name assign ty comment =>
      exact ty.follows.map (fun ty => Spec.typeSpec doc name assign ty comment) fun _ => rfl

theorem Decl.follows_resolveTop (d : Decl Ident) : Follows Decl.plan d.resolveTop d := by
  cases d with
  | bad start stop => exact idle fun _ => rfl
  | group g =>
      obtain ⟨doc, tokPos, tok, lparen, specs, rparen⟩ := g
      exact (mapM Spec.follows_resolveTop specs).map
        (fun specs => Decl.group ⟨doc, tokPos, tok, lparen, specs, rparen⟩) fun _ => rfl
  | func doc recv name ty body =>
      have signature := ty.follows.and (Block.follows_option body)
      exact ((FieldList.follows_option recv).and signature).scope.map
        (fun r => Decl.func doc r.1 name r.2.1 r.2.2) fun _ => rfl

/-- Declaring the names of a declaration leaves what it declares alone. -/
theorem Decl.plan_declareTop (d : Decl Ident) (s : State) : (d.declareTop s).1.plan = d.plan := by
  cases d with
  | bad start stop => rfl
  | group g =>
      obtain ⟨doc, tokPos, tok, lparen, specs, rparen⟩ := g
      have each (spec : Spec Ident) (s : State) : (spec.declareTop tok s).1.plan = spec.plan := by
        cases spec <;> rfl
      exact congrArg Plan.list (map_mapM each specs s)
  | func doc recv name ty body =>
      rw [Decl.declareTop]
      split <;> rfl

/-- Binding what a declaration declares leaves its names alone. -/
theorem Decl.namePlan_resolveTop (d : Decl Ident) (s : State) :
    (d.resolveTop s).1.namePlan = d.namePlan := by
  cases d with
  | bad start stop => rfl
  | group g =>
      obtain ⟨doc, tokPos, tok, lparen, specs, rparen⟩ := g
      have each (spec : Spec Ident) (s : State) :
          (spec.resolveTop s).1.namePlan tok = spec.namePlan tok := by
        cases spec <;> rfl
      exact congrArg Plan.list (map_mapM each specs s)
  | func doc recv name ty body => cases recv <;> rfl

/-- **Binding the declarations of a package runs their plan.** -/
theorem Decl.follows_resolveAll (ds : List (Decl Ident)) :
    Follows Decl.listPlan (Decl.resolveAll ds) ds := by
  refine (mapM Decl.follows_declareTop ds).andThen (mapM Decl.follows_resolveTop) ?_ ?_
  · exact fun s => congrArg Plan.list (map_mapM Decl.plan_declareTop ds s)
  · exact fun ds s => congrArg Plan.list (map_mapM Decl.namePlan_resolveTop ds s)

namespace File

variable (f : File Ident)

/-- The plan of the declarations of a file. -/
def plan : Plan := Decl.listPlan f.decls

theorem resolve_eq : f.resolve = { f with
    decls := (Decl.resolveAll f.decls .start).1
    unresolved := (Decl.resolveAll f.decls .start).2.unresolved.toList } := rfl

/-- The plan of a bound file is the outcome of its plan. -/
theorem plan_resolve : f.resolve.plan = (f.plan.run .start).1 :=
  (Decl.follows_resolveAll f.decls).seen .start

/-- The unresolved identifiers of a file are those that its plan notes. -/
theorem unresolved_resolve (fresh : f.plan.Fresh) : f.resolve.unresolved = f.resolve.plan.dangling := by
  rw [plan_resolve, resolve_eq, (Decl.follows_resolveAll f.decls).state .start]
  exact Plan.run_unresolved fresh .start

/-- A bound file is bound the same way again. -/
theorem resolve_resolve : f.resolve.resolve = f.resolve := by
  have follows := Decl.follows_resolveAll f.resolve.decls
  have again : (f.resolve.plan.run .start) = f.plan.run .start := by
    rw [plan_resolve, Plan.run_idem]
  have decls : (Decl.resolveAll f.resolve.decls .start).1 = f.resolve.decls := by
    apply follows.still .start
    change (f.resolve.plan.run .start).1 = f.resolve.plan
    rw [again, plan_resolve]
  have state : (Decl.resolveAll f.resolve.decls .start).2 = (Decl.resolveAll f.decls .start).2 := by
    rw [follows.state, (Decl.follows_resolveAll f.decls).state]
    exact congrArg Prod.snd again
  rw [resolve_eq f.resolve, decls, state]
  rfl

end File

end GoFront
