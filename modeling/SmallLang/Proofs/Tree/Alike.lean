import SmallLang.Tree

/-!
# Trees that differ in their notes

What inference finds out is noted in declarations and nowhere else. Two trees are alike if
they differ at most in these notes, and the notes at the same place are related.
-/

set_option autoImplicit false

namespace SmallLang

variable (related : Option Term → Option Term → Prop)

mutual

/-- Two statements that differ at most in related notes. -/
inductive Stmt.Alike : Stmt → Stmt → Prop where
  | expr (e : Expr) : Stmt.Alike (.expr e) (.expr e)
  | comment (text : String) : Stmt.Alike (.comment text) (.comment text)
  | use (used : Use) : Stmt.Alike (.use used) (.use used)
  | parameter (param : Parameter) : Stmt.Alike (.parameter param) (.parameter param)
  | returns (value : Option Expr) : Stmt.Alike (.returns value) (.returns value)
  | declare {decl : Variable} {note : Option Term} :
      related decl.resolved note →
      Stmt.Alike (.declare decl) (.declare { decl with resolved := note })
  | prototype {header : FunctionHeader} {note : Option Term} :
      related header.resolved note →
      Stmt.Alike (.function header none) (.function { header with resolved := note } none)
  | function {header : FunctionHeader} {note : Option Term} {body body' : List Stmt} :
      related header.resolved note → Stmt.AllAlike body body' →
      Stmt.Alike (.function header (some body))
        (.function { header with resolved := note } (some body'))
  | branch {condition : Expr} {body body' : List Stmt} {alternate alternate' : Alternate} :
      Stmt.AllAlike body body' → Alternate.Alike alternate alternate' →
      Stmt.Alike (.branch condition body alternate) (.branch condition body' alternate')
  | loop {condition : Expr} {body body' : List Stmt} :
      Stmt.AllAlike body body' → Stmt.Alike (.loop condition body) (.loop condition body')
  | switch {subject : Expr} {arms arms' : List Arm} :
      Arm.AllAlike arms arms' → Stmt.Alike (.switch subject arms) (.switch subject arms')
  | arm {single single' : Arm} :
      Arm.Alike single single' → Stmt.Alike (.arm single) (.arm single')
  | merged {body body' : List Stmt} :
      Stmt.AllAlike body body' → Stmt.Alike (.merged body) (.merged body')

inductive Alternate.Alike : Alternate → Alternate → Prop where
  | none : Alternate.Alike .none .none
  | elseBranch {condition : Expr} {body body' : List Stmt} {alternate alternate' : Alternate} :
      Stmt.AllAlike body body' → Alternate.Alike alternate alternate' →
      Alternate.Alike (.elseBranch condition body alternate)
        (.elseBranch condition body' alternate')
  | otherwise {body body' : List Stmt} :
      Stmt.AllAlike body body' → Alternate.Alike (.otherwise body) (.otherwise body')

inductive Arm.Alike : Arm → Arm → Prop where
  | value {pattern : Expr} {body body' : List Stmt} :
      Stmt.AllAlike body body' → Arm.Alike (.value pattern body) (.value pattern body')
  | otherwise {body body' : List Stmt} :
      Stmt.AllAlike body body' → Arm.Alike (.otherwise body) (.otherwise body')

inductive Stmt.AllAlike : List Stmt → List Stmt → Prop where
  | nil : Stmt.AllAlike [] []
  | cons {first first' : Stmt} {rest rest' : List Stmt} :
      Stmt.Alike first first' → Stmt.AllAlike rest rest' →
      Stmt.AllAlike (first :: rest) (first' :: rest')

inductive Arm.AllAlike : List Arm → List Arm → Prop where
  | nil : Arm.AllAlike [] []
  | cons {first first' : Arm} {rest rest' : List Arm} :
      Arm.Alike first first' → Arm.AllAlike rest rest' →
      Arm.AllAlike (first :: rest) (first' :: rest')

end

mutual

/-- A statement without its notes. -/
def Stmt.bare : Stmt → Stmt
  | .declare decl => .declare { decl with resolved := none }
  | .function header none => .function { header with resolved := none } none
  | .function header (some body) =>
      .function { header with resolved := none } (some (Stmt.allBare body))
  | .branch condition body alternate => .branch condition (Stmt.allBare body) alternate.bare
  | .loop condition body => .loop condition (Stmt.allBare body)
  | .switch subject arms => .switch subject (Arm.allBare arms)
  | .arm single => .arm single.bare
  | .merged body => .merged (Stmt.allBare body)
  | .expr e => .expr e
  | .comment text => .comment text
  | .use used => .use used
  | .parameter param => .parameter param
  | .returns value => .returns value

def Alternate.bare : Alternate → Alternate
  | .none => .none
  | .elseBranch condition body alternate =>
      .elseBranch condition (Stmt.allBare body) alternate.bare
  | .otherwise body => .otherwise (Stmt.allBare body)

def Arm.bare : Arm → Arm
  | .value pattern body => .value pattern (Stmt.allBare body)
  | .otherwise body => .otherwise (Stmt.allBare body)

def Stmt.allBare : List Stmt → List Stmt
  | [] => []
  | first :: rest => first.bare :: Stmt.allBare rest

def Arm.allBare : List Arm → List Arm
  | [] => []
  | first :: rest => first.bare :: Arm.allBare rest

end

section Bare

variable {related}

mutual

theorem Stmt.Alike.bare_eq : ∀ {s s' : Stmt}, s.Alike related s' → s.bare = s'.bare
  | _, _, .expr _ | _, _, .comment _ | _, _, .use _ | _, _, .parameter _ | _, _, .returns _
  | _, _, .declare _ | _, _, .prototype _ => rfl
  | _, _, .function _ body => by simp only [Stmt.bare, Stmt.AllAlike.allBare_eq body]
  | _, _, .branch body alternate => by
      simp only [Stmt.bare, Stmt.AllAlike.allBare_eq body, Alternate.Alike.bare_eq alternate]
  | _, _, .loop body => by simp only [Stmt.bare, Stmt.AllAlike.allBare_eq body]
  | _, _, .switch arms => by simp only [Stmt.bare, Arm.AllAlike.allBare_eq arms]
  | _, _, .arm single => by simp only [Stmt.bare, Arm.Alike.bare_eq single]
  | _, _, .merged body => by simp only [Stmt.bare, Stmt.AllAlike.allBare_eq body]

theorem Alternate.Alike.bare_eq :
    ∀ {alternate alternate' : Alternate}, alternate.Alike related alternate' →
      alternate.bare = alternate'.bare
  | _, _, .none => rfl
  | _, _, .elseBranch body alternate => by
      simp only [Alternate.bare, Stmt.AllAlike.allBare_eq body, Alternate.Alike.bare_eq alternate]
  | _, _, .otherwise body => by simp only [Alternate.bare, Stmt.AllAlike.allBare_eq body]

theorem Arm.Alike.bare_eq : ∀ {arm arm' : Arm}, arm.Alike related arm' → arm.bare = arm'.bare
  | _, _, .value body => by simp only [Arm.bare, Stmt.AllAlike.allBare_eq body]
  | _, _, .otherwise body => by simp only [Arm.bare, Stmt.AllAlike.allBare_eq body]

theorem Stmt.AllAlike.allBare_eq : ∀ {body body' : List Stmt},
    Stmt.AllAlike related body body' → Stmt.allBare body = Stmt.allBare body'
  | _, _, .nil => rfl
  | _, _, .cons first rest => by
      simp only [Stmt.allBare, Stmt.Alike.bare_eq first, Stmt.AllAlike.allBare_eq rest]

theorem Arm.AllAlike.allBare_eq : ∀ {arms arms' : List Arm},
    Arm.AllAlike related arms arms' → Arm.allBare arms = Arm.allBare arms'
  | _, _, .nil => rfl
  | _, _, .cons first rest => by
      simp only [Arm.allBare, Arm.Alike.bare_eq first, Arm.AllAlike.allBare_eq rest]

end

end Bare

section Weaken

variable {related related' : Option Term → Option Term → Prop}

mutual

/-- Trees that are alike stay so when less is asked of their notes. -/
theorem Stmt.Alike.mono (weaken : ∀ note note', related note note' → related' note note') :
    ∀ {s s' : Stmt}, s.Alike related s' → s.Alike related' s'
  | _, _, .expr e => .expr e
  | _, _, .comment text => .comment text
  | _, _, .use used => .use used
  | _, _, .parameter param => .parameter param
  | _, _, .returns value => .returns value
  | _, _, .declare noted => .declare (weaken _ _ noted)
  | _, _, .prototype noted => .prototype (weaken _ _ noted)
  | _, _, .function noted body => .function (weaken _ _ noted) (Stmt.AllAlike.mono weaken body)
  | _, _, .branch body alternate =>
      .branch (Stmt.AllAlike.mono weaken body) (Alternate.Alike.mono weaken alternate)
  | _, _, .loop body => .loop (Stmt.AllAlike.mono weaken body)
  | _, _, .switch arms => .switch (Arm.AllAlike.mono weaken arms)
  | _, _, .arm single => .arm (Arm.Alike.mono weaken single)
  | _, _, .merged body => .merged (Stmt.AllAlike.mono weaken body)

theorem Alternate.Alike.mono (weaken : ∀ note note', related note note' → related' note note') :
    ∀ {alternate alternate' : Alternate}, alternate.Alike related alternate' →
      alternate.Alike related' alternate'
  | _, _, .none => .none
  | _, _, .elseBranch body alternate =>
      .elseBranch (Stmt.AllAlike.mono weaken body) (Alternate.Alike.mono weaken alternate)
  | _, _, .otherwise body => .otherwise (Stmt.AllAlike.mono weaken body)

theorem Arm.Alike.mono (weaken : ∀ note note', related note note' → related' note note') :
    ∀ {arm arm' : Arm}, arm.Alike related arm' → arm.Alike related' arm'
  | _, _, .value body => .value (Stmt.AllAlike.mono weaken body)
  | _, _, .otherwise body => .otherwise (Stmt.AllAlike.mono weaken body)

theorem Stmt.AllAlike.mono (weaken : ∀ note note', related note note' → related' note note') :
    ∀ {body body' : List Stmt}, Stmt.AllAlike related body body' → Stmt.AllAlike related' body body'
  | _, _, .nil => .nil
  | _, _, .cons first rest =>
      .cons (Stmt.Alike.mono weaken first) (Stmt.AllAlike.mono weaken rest)

theorem Arm.AllAlike.mono (weaken : ∀ note note', related note note' → related' note note') :
    ∀ {arms arms' : List Arm}, Arm.AllAlike related arms arms' → Arm.AllAlike related' arms arms'
  | _, _, .nil => .nil
  | _, _, .cons first rest =>
      .cons (Arm.Alike.mono weaken first) (Arm.AllAlike.mono weaken rest)

end

theorem Stmt.AllAlike.append {first first' second second' : List Stmt}
    (alike : Stmt.AllAlike related first first') (alike' : Stmt.AllAlike related second second') :
    Stmt.AllAlike related (first ++ second) (first' ++ second') := by
  induction first generalizing first' with
  | nil =>
      cases alike with
      | nil => exact alike'
  | cons head tail ih =>
      cases alike with
      | cons begins goes => exact .cons begins (ih goes)

end Weaken

section Compare

variable {first second third : Option Term → Option Term → Prop}

mutual

/-- Two trees that are alike a third one are alike. -/
theorem Stmt.Alike.compare (meet : ∀ note left right, first note left → second note right →
    third left right) : ∀ {s left right : Stmt}, s.Alike first left → s.Alike second right →
      left.Alike third right
  | _, _, _, .expr e, .expr _ => .expr e
  | _, _, _, .comment text, .comment _ => .comment text
  | _, _, _, .use used, .use _ => .use used
  | _, _, _, .parameter param, .parameter _ => .parameter param
  | _, _, _, .returns value, .returns _ => .returns value
  | _, _, _, @Stmt.Alike.declare _ decl left noted, @Stmt.Alike.declare _ _ right noted' =>
      @Stmt.Alike.declare third { decl with resolved := left } right (meet _ _ _ noted noted')
  | _, _, _, @Stmt.Alike.prototype _ header left noted,
      @Stmt.Alike.prototype _ _ right noted' =>
      @Stmt.Alike.prototype third { header with resolved := left } right
        (meet _ _ _ noted noted')
  | _, _, _, @Stmt.Alike.function _ header left _ _ noted body,
      @Stmt.Alike.function _ _ right _ _ noted' body' =>
      @Stmt.Alike.function third { header with resolved := left } right _ _
        (meet _ _ _ noted noted') (Stmt.AllAlike.compare meet body body')
  | _, _, _, .branch body alternate, .branch body' alternate' =>
      .branch (Stmt.AllAlike.compare meet body body')
        (Alternate.Alike.compare meet alternate alternate')
  | _, _, _, .loop body, .loop body' => .loop (Stmt.AllAlike.compare meet body body')
  | _, _, _, .switch arms, .switch arms' => .switch (Arm.AllAlike.compare meet arms arms')
  | _, _, _, .arm single, .arm single' => .arm (Arm.Alike.compare meet single single')
  | _, _, _, .merged body, .merged body' => .merged (Stmt.AllAlike.compare meet body body')

theorem Alternate.Alike.compare (meet : ∀ note left right, first note left → second note right →
    third left right) : ∀ {alternate left right : Alternate}, alternate.Alike first left →
      alternate.Alike second right → left.Alike third right
  | _, _, _, .none, .none => .none
  | _, _, _, .elseBranch body alternate, .elseBranch body' alternate' =>
      .elseBranch (Stmt.AllAlike.compare meet body body')
        (Alternate.Alike.compare meet alternate alternate')
  | _, _, _, .otherwise body, .otherwise body' =>
      .otherwise (Stmt.AllAlike.compare meet body body')

theorem Arm.Alike.compare (meet : ∀ note left right, first note left → second note right →
    third left right) : ∀ {arm left right : Arm}, arm.Alike first left →
      arm.Alike second right → left.Alike third right
  | _, _, _, .value body, .value body' => .value (Stmt.AllAlike.compare meet body body')
  | _, _, _, .otherwise body, .otherwise body' =>
      .otherwise (Stmt.AllAlike.compare meet body body')

theorem Stmt.AllAlike.compare (meet : ∀ note left right, first note left → second note right →
    third left right) : ∀ {body left right : List Stmt}, Stmt.AllAlike first body left →
      Stmt.AllAlike second body right → Stmt.AllAlike third left right
  | _, _, _, .nil, .nil => .nil
  | _, _, _, .cons head tail, .cons head' tail' =>
      .cons (Stmt.Alike.compare meet head head') (Stmt.AllAlike.compare meet tail tail')

theorem Arm.AllAlike.compare (meet : ∀ note left right, first note left → second note right →
    third left right) : ∀ {arms left right : List Arm}, Arm.AllAlike first arms left →
      Arm.AllAlike second arms right → Arm.AllAlike third left right
  | _, _, _, .nil, .nil => .nil
  | _, _, _, .cons head tail, .cons head' tail' =>
      .cons (Arm.Alike.compare meet head head') (Arm.AllAlike.compare meet tail tail')

end

end Compare

end SmallLang
