import SmallLang.Proofs.Inference.Discipline
import SmallLang.Proofs.Inference.Program
import SmallLang.Proofs.Inference.Quiet
import SmallLang.Proofs.Module.Loaded
import SmallLang.Proofs.Scope.Occurrence
import SmallLang.Tree.Equality

/-!
# Every use of a name is bound

Inference finds a name where it is visible, and leaves every other name to a declaration in the root
scope that is still to come. So it succeeds only if all uses of names are bound, and where it misses
a declaration there is a use of that name, at that position, that is not.
-/

set_option autoImplicit false

namespace SmallLang

open Infer Walk

/-- The symbol that an expression names is the only name that it uses. -/
theorem Expr.exists_position_of_symbol? {e : Expr} {name : String}
    (symbol : e.symbol? = some name) :
    ∃ position, e.position? = some position ∧ e.infer = Infer.name name position ∧
      e.mentions = [(name, position)] := by
  cases e with
  | identifier _ position =>
      obtain rfl := Option.some.inj symbol
      exact ⟨position, rfl, rfl, rfl⟩
  | member object property =>
      cases object with
      | identifier space position =>
          obtain rfl := Option.some.inj symbol
          exact ⟨position, rfl, rfl, rfl⟩
      | _ => cases symbol
  | _ => cases symbol

section Tracking

variable {α β γ : Type} {engine engine' engine'' : Engine} {site site' site'' : Site}
  {occurrences more : List Occurrence} {error : Error} {name : String} {symbol : Symbol}

/-- At some site, an engine finds exactly the names that are visible there, and the types. It waits
for no name that is declared in the root scope. -/
structure Engine.Tracks (engine : Engine) (site : Site) : Prop where
  sane : engine.scopes.Sane
  known : engine.known = []
  isRoot : engine.scopes.isRoot = site.isRoot
  declaring : engine.declaring = site.declaring
  finds : ∀ name, (engine.scopes.resolve? name).isSome = true ↔
    Ty.isTypeName name = true ∨ name ∈ site.visible
  waits : ∀ reference ∈ engine.forward, engine.scopes.root.lookup reference.name = none

/-- A name for which an engine waits, or which is declared in the root scope by now. -/
def Engine.Expects (engine : Engine) (name : String) : Prop :=
  (∃ reference ∈ engine.forward, reference.name = name) ∨
    (engine.scopes.root.lookup name).isSome = true

/-- The first of some uses of names that is one of a name where the name is not visible. -/
def Occurrence.firstHidden? (name : String) (occurrences : List Occurrence) : Option Occurrence :=
  occurrences.find? fun occurrence =>
    occurrence.name = name ∧ occurrence.name ∉ occurrence.site.visible

/-- From one engine to a later one, some uses of names have been dealt with: each is visible, or
waits for a declaration in the root scope, which is none around it. Whatever the later engine waits
for in addition is a name for which the first one did not wait, and stands where that name is used
first without being visible. -/
structure Engine.Accounts (engine engine' : Engine) (occurrences : List Occurrence) : Prop where
  expects : ∀ name, engine.Expects name → engine'.Expects name
  found : ∀ occurrence ∈ occurrences, occurrence.name ∈ occurrence.site.visible ∨
    Ty.isTypeName occurrence.name = false ∧
      occurrence.site.declaring ≠ some occurrence.name ∧ engine'.Expects occurrence.name
  adds : ∀ reference ∈ engine'.forward, reference ∈ engine.forward ∨
    ¬ engine.Expects reference.name ∧
      ∃ occurrence, Occurrence.firstHidden? reference.name occurrences = some occurrence ∧
        occurrence.position = reference.position

theorem Occurrence.firstHidden?_spec {occurrence : Occurrence}
    (found : firstHidden? name occurrences = some occurrence) :
    occurrence ∈ occurrences ∧ occurrence.name = name ∧
      occurrence.name ∉ occurrence.site.visible :=
  ⟨List.mem_of_find?_eq_some found, by simpa using List.find?_some found⟩

/-- If a declaration is missing, then that of a name that is used in the value of the variable of
this very name. -/
def Error.Blames (error : Error) (occurrences : List Occurrence) : Prop :=
  ∀ name, error.cause = .notDeclared name → ∃ occurrence ∈ occurrences,
    occurrence.name = name ∧ occurrence.position = error.position ∧
      occurrence.name ∉ occurrence.site.visible ∧ occurrence.site.declaring = some occurrence.name

theorem Error.Elsewhere.blames (elsewhere : error.Elsewhere) (occurrences : List Occurrence) :
    error.Blames occurrences :=
  fun name missing => absurd missing (elsewhere name)

theorem Error.Blames.mono (blames : error.Blames occurrences) (within : occurrences ⊆ more) :
    error.Blames more := by
  intro name missing
  obtain ⟨occurrence, present, about⟩ := blames name missing
  exact ⟨occurrence, within present, about⟩

namespace Engine

theorem Tracks.congr (tracks : engine.Tracks site) (scopes : engine'.scopes = engine.scopes)
    (known : engine'.known = engine.known) (forward : engine'.forward = engine.forward)
    (declaring : engine'.declaring = site'.declaring) (isRoot : site'.isRoot = site.isRoot)
    (visible : ∀ name, name ∈ site'.visible ↔ name ∈ site.visible) : engine'.Tracks site' where
  sane := scopes ▸ tracks.sane
  known := known.trans tracks.known
  isRoot := by rw [scopes, tracks.isRoot, isRoot]
  declaring := declaring
  finds name := by rw [scopes, tracks.finds, visible]
  waits := by
    rw [scopes, forward]
    exact tracks.waits

theorem Alike.tracks (alike : engine.Alike engine') (tracks : engine.Tracks site) :
    engine'.Tracks site :=
  tracks.congr alike.scopes alike.known alike.forward (alike.declaring.trans tracks.declaring) rfl
    fun _ => Iff.rfl

theorem Alike.expects (alike : engine.Alike engine') :
    engine'.Expects name ↔ engine.Expects name := by
  rw [Expects, Expects, alike.forward, alike.scopes]

theorem Alike.accounts (alike : engine.Alike engine') : engine.Accounts engine' [] where
  expects _ := alike.expects.mpr
  found := List.forall_mem_nil _
  adds _ present := .inl (alike.forward ▸ present)

theorem Accounts.trans (first : engine.Accounts engine' occurrences)
    (second : engine'.Accounts engine'' more) : engine.Accounts engine'' (occurrences ++ more) where
  expects name expects := second.expects name (first.expects name expects)
  found := by
    intro occurrence present
    cases List.mem_append.mp present with
    | inl early =>
        cases first.found occurrence early with
        | inl visible => exact .inl visible
        | inr found => exact .inr ⟨found.1, found.2.1, second.expects _ found.2.2⟩
    | inr late => exact second.found occurrence late
  adds := by
    intro reference present
    cases second.adds reference present with
    | inr new =>
        obtain ⟨fresh, occurrence, late, stands⟩ := new
        refine .inr ⟨fun expects => fresh (first.expects _ expects), occurrence, ?_, stands⟩
        -- The first step would have waited for the name already, had it been hidden there.
        have none : Occurrence.firstHidden? reference.name occurrences = none := by
          refine List.find?_eq_none.mpr fun earlier early => ?_
          rw [decide_eq_true_iff]
          rintro ⟨same, hidden⟩
          exact fresh (same ▸ ((first.found earlier early).resolve_left hidden).2.2)
        rw [Occurrence.firstHidden?] at none
        rw [Occurrence.firstHidden?, List.find?_append, none, Option.none_or]
        exact late
    | inl present' =>
        cases first.adds reference present' with
        | inl old => exact .inl old
        | inr new =>
            obtain ⟨fresh, occurrence, early, stands⟩ := new
            refine .inr ⟨fresh, occurrence, ?_, stands⟩
            rw [Occurrence.firstHidden?] at early
            rw [Occurrence.firstHidden?, List.find?_append, early, Option.some_or]

/-- Whatever the later engine waits for in addition is a name that is used where it is not
visible. -/
theorem Accounts.forward (accounts : engine.Accounts engine' occurrences) :
    ∀ reference ∈ engine'.forward, reference ∈ engine.forward ∨
      ∃ occurrence ∈ occurrences, occurrence.name = reference.name ∧
        occurrence.position = reference.position ∧
        occurrence.name ∉ occurrence.site.visible := by
  intro reference present
  refine (accounts.adds reference present).imp_right ?_
  intro new
  obtain ⟨_, occurrence, found, stands⟩ := new
  obtain ⟨used, same, hidden⟩ := Occurrence.firstHidden?_spec found
  exact ⟨occurrence, used, same, stands, hidden⟩

theorem Tracks.lookup? (tracks : engine.Tracks site) (name : String) :
    engine.lookup? name = engine.scopes.resolve? name := by
  rw [Engine.lookup?, tracks.known, List.lookup_nil, Option.or_none]

theorem Tracks.mem_visible (tracks : engine.Tracks site) (found : engine.lookup? name = some symbol)
    (value : ∀ type, symbol ≠ .builtin type) : name ∈ site.visible := by
  rw [tracks.lookup?] at found
  refine ((tracks.finds name).mp (by rw [found]; rfl)).resolve_left ?_
  intro isType
  obtain ⟨type, known⟩ := Option.isSome_iff_exists.mp isType
  have builtin := (tracks.sane name type).mpr known
  rw [found] at builtin
  exact value type (Option.some.inj builtin)

theorem Tracks.unseen (tracks : engine.Tracks site) (missing : engine.lookup? name = none) :
    Ty.isTypeName name = false ∧ name ∉ site.visible ∧ engine.scopes.root.lookup name = none := by
  rw [tracks.lookup?] at missing
  have unfound : ¬ (Ty.isTypeName name = true ∨ name ∈ site.visible) := by
    rw [← tracks.finds, missing]
    exact Bool.false_ne_true
  exact ⟨Bool.eq_false_iff.mpr fun isType => unfound (.inl isType),
    fun visible => unfound (.inr visible), Scopes.lookup_root_of_resolve?_eq_none missing⟩

theorem forward_settleForward (engine : Engine) (name : String) (term : Term) :
    (engine.settleForward name term).forward =
      if engine.scopes.isRoot then engine.forward.filter (·.name != name) else engine.forward := by
  unfold settleForward
  split
  · split
    · next unknown =>
        symm
        rw [List.filter_eq_self]
        intro reference present
        simpa using List.find?_eq_none.mp unknown reference present
    · rw [constrain_eq]
  · rfl

section Declaring

variable (name) (symbol) (term : Term)

theorem Tracks.declare (tracks : engine.Tracks site) (notType : Ty.isTypeName name = false)
    (value : ∀ type, symbol ≠ .builtin type) :
    ({ engine with scopes := engine.scopes.insert name symbol }.settleForward name term).Tracks
      (site.declare [name]) where
  sane := by
    rw [settleForward_eq]
    exact tracks.sane.insert notType value
  known := by
    rw [settleForward_eq]
    exact tracks.known
  isRoot := by
    rw [settleForward_eq]
    exact (Scopes.isRoot_insert ..).trans tracks.isRoot
  declaring := by
    rw [settleForward_eq]
    exact tracks.declaring
  finds other := by
    rw [settleForward_eq, Scopes.resolve?_insert]
    by_cases same : other = name
    · simp [Site.declare, same]
    · simpa [Site.declare, same] using tracks.finds other
  waits := by
    intro reference present
    rw [forward_settleForward] at present
    rw [settleForward_eq]
    dsimp only at present ⊢
    rw [Scopes.isRoot_insert] at present
    cases isRoot : engine.scopes.isRoot with
    | true =>
        rw [if_pos isRoot, List.mem_filter, bne_iff_ne] at present
        rw [Scopes.lookup_root_insert_of_isRoot isRoot, if_neg present.2]
        exact tracks.waits reference present.1
    | false =>
        rw [if_neg (Bool.eq_false_iff.mp isRoot)] at present
        rw [Scopes.root_insert_of_not_isRoot isRoot]
        exact tracks.waits reference present

/-- A declaration in the root scope settles what waits for it, and changes nothing else. -/
theorem accounts_declare (engine : Engine) :
    engine.Accounts
      ({ engine with scopes := engine.scopes.insert name symbol }.settleForward name term) [] where
  expects := by
    intro other expects
    rw [Expects, forward_settleForward, settleForward_eq]
    dsimp only
    rw [Scopes.isRoot_insert]
    cases isRoot : engine.scopes.isRoot with
    | true =>
        rw [if_pos rfl, Scopes.lookup_root_insert_of_isRoot isRoot]
        by_cases same : other = name
        · exact .inr (by rw [if_pos same]; rfl)
        · rw [if_neg same]
          refine expects.imp_left ?_
          intro waiting
          obtain ⟨reference, present, rfl⟩ := waiting
          exact ⟨reference, List.mem_filter.mpr ⟨present, bne_iff_ne.mpr same⟩, rfl⟩
    | false =>
        rw [if_neg Bool.false_ne_true, Scopes.root_insert_of_not_isRoot isRoot]
        exact expects
  found := List.forall_mem_nil _
  adds := by
    intro reference present
    rw [forward_settleForward] at present
    split at present
    · exact .inl (List.mem_filter.mp present).1
    · exact .inl present

end Declaring

theorem Tracks.push (tracks : engine.Tracks site) (idle : site.declaring = none) :
    engine.push.Tracks (site.enter []) where
  sane := tracks.sane.push
  known := tracks.known
  isRoot := rfl
  declaring := tracks.declaring.trans idle
  finds name := by
    rw [Engine.push, Scopes.resolve?_push, tracks.finds, Site.enter, List.append_nil]
  waits := tracks.waits

/-- Leaving a block gives back what was visible before it. -/
theorem Tracks.leaveBlock (inside : engine'.Tracks site') (tracks : engine.Tracks site)
    (retains : engine.push.Retains engine') (idle : site.declaring = none) :
    engine'.pop.Tracks site := by
  have same : engine'.pop.scopes = engine.scopes := retains.scopes.pop
  exact {
    sane := same ▸ tracks.sane
    known := inside.known
    isRoot := same ▸ tracks.isRoot
    declaring := (retains.declaring (tracks.declaring.trans idle)).trans idle.symm
    finds := same ▸ tracks.finds
    waits := inside.waits }

end Engine

/-- A step deals with some uses of names, at one site before it and another after it. -/
def Infer.Resolves (work : Infer α) (site site' : Site) (occurrences : List Occurrence) : Prop :=
  ∀ engine, engine.Tracks site → work.Meets engine
    (fun _ engine' => engine'.Tracks site' ∧ engine.Accounts engine' occurrences)
    fun error _ => error.Blames occurrences

namespace Infer

theorem Resolves.bind {first : Infer α} {second : α → Infer β}
    (before : first.Resolves site site' occurrences)
    (after : ∀ value, (second value).Resolves site' site'' more) :
    (first >>= second).Resolves site site'' (occurrences ++ more) := by
  intro engine tracks
  refine Meets.bind ((before engine tracks).imp (fun value between met => ?_)
    fun _ _ blames => blames.mono (List.subset_append_left ..))
  refine (after value between met.1).imp (fun _ _ met' => ⟨met'.1, met.2.trans met'.2⟩) ?_
  intro _ _ blames
  exact blames.mono (List.subset_append_right ..)

theorem Quiet.resolves {work : Infer α} (quiet : work.Quiet) (site : Site) :
    work.Resolves site site [] :=
  fun engine tracks => (quiet engine).imp
    (fun _ _ alike => ⟨alike.tracks tracks, alike.accounts⟩) fun _ _ elsewhere => elsewhere.blames _

theorem Resolves.andThen {first : Infer α} {second : α → Infer β}
    (before : first.Resolves site site' occurrences) (after : ∀ value, (second value).Quiet) :
    (first >>= second).Resolves site site' occurrences :=
  List.append_nil occurrences ▸ before.bind fun value => (after value).resolves site'

theorem Quiet.andThen {first : Infer α} {second : α → Infer β} (before : first.Quiet)
    (after : ∀ value, (second value).Resolves site site' occurrences) :
    (first >>= second).Resolves site site' occurrences :=
  (before.resolves site).bind after

theorem resolves_name (site : Site) (name : String) (position : Position) :
    (Infer.name name position).Resolves site site (site.uses [(name, position)]) := by
  intro engine tracks
  have visible : name ∈ site.visible → engine.Accounts engine (site.uses [(name, position)]) := by
    intro visible
    refine ⟨fun _ => id, fun occurrence present => ?_, fun _ => .inl⟩
    obtain rfl := List.mem_singleton.mp present
    exact .inl visible
  apply meets_get_bind
  split
  · next found => exact ⟨tracks, visible (tracks.mem_visible found fun _ => nofun)⟩
  · next found => exact ⟨tracks, visible (tracks.mem_visible found fun _ => nofun)⟩
  · intro missing same
    cases same
  · next missing =>
      obtain ⟨notType, hidden, new⟩ := tracks.unseen missing
      split
      · next own =>
          intro missing same
          cases same
          exact ⟨_, List.mem_singleton_self _, rfl, rfl, hidden, tracks.declaring.symm.trans own⟩
      · next other =>
          have account : ∀ {last : Engine}, last.Expects name →
              ∀ occurrence ∈ site.uses [(name, position)],
                occurrence.name ∈ occurrence.site.visible ∨
                  Ty.isTypeName occurrence.name = false ∧
                    occurrence.site.declaring ≠ some occurrence.name ∧
                    last.Expects occurrence.name := by
            intro last expects occurrence present
            obtain rfl := List.mem_singleton.mp present
            exact .inr ⟨notType, fun own => other (tracks.declaring.trans own), expects⟩
          unfold Meets forward
          cases waiting : engine.forward.find? (·.name == name) with
          | some reference =>
              have same : reference.name = name := by simpa using List.find?_some waiting
              refine ⟨tracks, fun _ => id, account (.inl ⟨reference, ?_, same⟩), fun _ => .inl⟩
              exact List.mem_of_find?_eq_some waiting
          | none =>
              refine ⟨⟨tracks.sane, tracks.known, tracks.isRoot, tracks.declaring, tracks.finds,
                  ?_⟩,
                ?_, account (.inl ⟨_, List.mem_append_right _ (List.mem_singleton_self _), rfl⟩),
                ?_⟩
              · intro reference present
                cases List.mem_append.mp present with
                | inl old => exact tracks.waits reference old
                | inr last =>
                    obtain rfl := List.mem_singleton.mp last
                    exact new
              · intro expected expects
                refine expects.imp_left ?_
                intro found
                obtain ⟨reference, present, same⟩ := found
                exact ⟨reference, List.mem_append_left _ present, same⟩
              · intro reference present
                cases List.mem_append.mp present with
                | inl old => exact .inl old
                | inr last =>
                    obtain rfl := List.mem_singleton.mp last
                    refine .inr ⟨?_, _, List.find?_cons_of_pos (by simpa using hidden), rfl⟩
                    rintro (⟨reference, old, same⟩ | known)
                    · exact List.find?_eq_none.mp waiting reference old (by simpa using same)
                    · rw [new] at known
                      cases known

/-- A declaration makes its name visible. -/
theorem resolves_define (site : Site) (position : Position)
    (value : ∀ type, symbol ≠ .builtin type) (term : Term) {next : Unit → Infer α}
    (quiet : ∀ done, (next done).Quiet) :
    (define name symbol position >>= fun _ => update (·.settleForward name term) >>= next).Resolves
      site (site.declare [name]) [] := by
  intro engine tracks
  refine Meets.bind (meets_define ?_ fun _ fails => (Scopes.elsewhere_define fails).blames _)
  intro scopes defined
  obtain ⟨notType, _, rfl⟩ := Scopes.define_eq_ok_iff.mp defined
  have tracks' := tracks.declare name symbol term notType value
  have accounts := engine.accounts_declare name symbol term
  refine Meets.bind (meets_update ((quiet () _).imp (fun _ _ alike => ?_)
    fun _ _ elsewhere => elsewhere.blames _))
  exact ⟨alike.tracks tracks', accounts.trans alike.accounts⟩

theorem resolves_parameter (site : Site) (inner : site.isRoot = false) (param : Parameter) :
    (parameter param).Resolves site (site.declare [param.name]) [] := by
  refine Quiet.andThen (quiet_ofExcept fun _ _ => Scopes.elsewhere_typeOf) ?_
  intro type
  refine Resolves.andThen (fun engine tracks => ?_) fun _ => quiet_pure _
  apply meets_define
  · intro scopes defined
    obtain ⟨notType, _, rfl⟩ := Scopes.define_eq_ok_iff.mp defined
    have isRoot : engine.scopes.isRoot = false := tracks.isRoot.trans inner
    have tracks' := tracks.declare param.name (.variable (.concrete type) true) (.concrete type)
      notType fun _ => nofun
    have accounts := engine.accounts_declare param.name (.variable (.concrete type) true)
      (.concrete type)
    rw [Engine.settleForward_of_not_isRoot (by rw [Scopes.isRoot_insert, isRoot])]
      at tracks' accounts
    exact ⟨tracks', accounts⟩
  · exact fun _ fails => (Scopes.elsewhere_define fails).blames _

theorem resolves_parameters (params : List Parameter) : ∀ (site : Site), site.isRoot = false →
    (parameters params).Resolves site (site.declare (params.map (·.name))) [] := by
  induction params with
  | nil =>
      intro site _
      rw [List.map_nil, Site.declare_nil]
      exact (quiet_pure ()).resolves site
  | cons first rest ih =>
      intro site inner
      have after := ih (site.declare [first.name]) inner
      rw [Site.declare_declare] at after
      exact (resolves_parameter site inner first).bind fun _ => after

theorem resolves_application (callee : Expr) (terms : List Term)
    (site : Site) (named : callee.infer.Resolves site site (site.uses callee.mentions)) :
    Resolves (get >>= fun engine : Engine => match callee.symbol?.bind engine.lookup? with
        | some (.function parameters result) => application parameters result terms
        | _ => callee.infer) site site (site.uses callee.mentions) := by
  intro engine tracks
  apply meets_get_bind
  split
  · next parameters result found =>
      obtain ⟨name, symbol, found⟩ := Option.bind_eq_some_iff.mp found
      obtain ⟨position, _, _, mentions⟩ := Expr.exists_position_of_symbol? symbol
      refine (quiet_application parameters result terms engine).imp (fun _ _ alike => ?_)
        fun _ _ elsewhere => elsewhere.blames _
      refine ⟨alike.tracks tracks, ⟨fun _ => alike.expects.mpr, fun occurrence present => ?_,
        fun _ present => .inl (alike.forward ▸ present)⟩⟩
      rw [mentions] at present
      obtain rfl := List.mem_singleton.mp present
      exact .inl (tracks.mem_visible found fun _ same => Symbol.noConfusion same)
  · exact named engine tracks

end Infer

mutual

/-- Inference of an expression deals with all names that it uses. -/
theorem Expr.resolves_infer (site : Site) : ∀ e : Expr,
    e.infer.Resolves site site (site.uses e.mentions)
  | .identifier name position => resolves_name site name position
  | .member object property => by
      cases object with
      | identifier space position =>
          exact resolves_name site (qualifiedName space property) position
      | _ => exact fun _ _ missing same => by cases same
  | .call callee arguments => by
      rw [Expr.infer, Expr.mentions, Site.uses_append]
      refine (Expr.resolves_inferAll site arguments).bind ?_
      intro terms
      exact resolves_application callee terms site (Expr.resolves_infer site callee)
  | .binary operator left right => by
      rw [Expr.infer, Expr.mentions, Site.uses_append]
      refine (Expr.resolves_infer site left).bind fun _ =>
        (Expr.resolves_infer site right).andThen ?_
      intro _ engine
      exact meets_get_bind (quiet_operation _ _ _ _ engine)
  | .prefixed .negate operand => Expr.resolves_infer site operand
  | .prefixed .not operand => by
      rw [Expr.infer]
      refine (Expr.resolves_infer site operand).andThen ?_
      intro _
      refine (quiet_constrain _ _).bind ?_
      intro _
      exact quiet_pure _
  | .postfixed _ operand => Expr.resolves_infer site operand
  | .number _ | .string _ | .boolean _ | .null => (quiet_pure _).resolves site

theorem Expr.resolves_inferAll (site : Site) : ∀ expressions : List Expr,
    (Expr.inferAll expressions).Resolves site site (site.uses (Expr.allMentions expressions))
  | [] => (quiet_pure _).resolves site
  | first :: rest => by
      rw [Expr.inferAll, Expr.allMentions, Site.uses_append]
      refine (Expr.resolves_infer site first).bind ?_
      intro _
      refine (Expr.resolves_inferAll site rest).andThen ?_
      intro _
      exact quiet_pure _

end

namespace Infer

theorem resolves_condition (site : Site) (e : Expr) :
    (condition e).Resolves site site (site.uses e.mentions) :=
  (e.resolves_infer site).andThen fun _ => quiet_constrain _ _

theorem resolves_pattern (site : Site) (subject : Option Term) (e : Expr) :
    (pattern subject e).Resolves site site (site.uses e.mentions) := by
  refine (e.resolves_infer site).andThen ?_
  intro term
  cases subject with
  | none => exact quiet_pure _
  | some subject => exact quiet_constrain subject term

theorem resolves_value? (site : Site) (value : Option Expr) :
    (value? value).Resolves site site (site.uses (Expr.mentions? value)) := by
  cases value with
  | none => exact (quiet_pure _).resolves site
  | some e => exact (e.resolves_infer site).andThen fun _ => quiet_pure _

theorem resolves_returns (site : Site) (value : Option Expr) :
    (returns value).Resolves site site (site.uses (Expr.mentions? value)) :=
  (resolves_value? site value).andThen fun _ =>
    (quiet_update fun engine => engine.alike_addReturn _).bind fun _ => quiet_pure _

/-- The value of a variable is a site of its own. -/
theorem Resolves.declaring {work : Infer α} {name : String} (idle : site.declaring = none)
    (resolves : work.Resolves (site.value name) (site.value name) occurrences) :
    (declaring name work).Resolves site site occurrences := by
  intro engine tracks
  have inside : Engine.Tracks
      { engine with declaring := if engine.scopes.isRoot then some name else engine.declaring }
      (site.value name) := by
    refine tracks.congr rfl rfl rfl ?_ rfl fun _ => Iff.rfl
    rw [Site.value, tracks.isRoot, tracks.declaring]
  refine meets_declaring ((resolves _ inside).imp (fun _ last met => ?_) fun _ _ => id)
  have accounts := met.2
  exact ⟨met.1.congr rfl rfl rfl idle.symm rfl fun _ => Iff.rfl,
    accounts.expects, accounts.found, accounts.adds⟩

theorem resolves_initial (site : Site) (idle : site.declaring = none) (decl : Variable) :
    (initial decl).Resolves site site
      ((site.value decl.name).uses (Expr.mentions? decl.value)) :=
  (quiet_anchor decl.position).andThen fun _ =>
    (quiet_ofExcept fun _ _ => Scopes.elsewhere_typeOf?).andThen fun _ =>
      (Resolves.declaring idle (resolves_value? _ decl.value)).andThen fun _ => quiet_pure _

theorem resolves_declare (site : Site) (decl : Variable) (known : Option Term) :
    (declare decl known).Resolves site (site.declare [decl.name]) [] :=
  (quiet_orFresh known).andThen fun term =>
    resolves_define site decl.position (by intro _; nofun) term fun _ => quiet_pure _

theorem resolves_function (site : Site) (header : FunctionHeader) :
    (function header).Resolves site (site.declare [header.name]) [] := by
  refine (quiet_anchor header.position).andThen ?_
  intro _
  refine (quiet_ofExcept fun _ _ => Scopes.elsewhere_typesOf).andThen ?_
  intro _
  refine (quiet_ofExcept fun _ _ => Scopes.elsewhere_typeOf?).andThen ?_
  intro _
  refine (quiet_orFresh _).andThen ?_
  intro term
  exact resolves_define site header.position (by intro _; nofun) term fun _ => quiet_pure _

end Infer

/-- A walk deals with some uses of names, at one site before it and another after it. -/
def Walk.Resolves (walk : Walk α) (site site' : Site) (occurrences : List Occurrence) : Prop :=
  ∀ engine, engine.Tracks site → walk.Meets engine
    (fun engine' => engine'.Tracks site' ∧ engine.Accounts engine' occurrences)
    fun error _ => error.Blames occurrences

namespace Walk

theorem resolves_after {work : Infer γ} {part : α} {walk : γ → Walk α}
    (before : work.Resolves site site' occurrences)
    (after : ∀ value, (walk value).Resolves site' site'' more) :
    (Walk.after work part walk).Resolves site site'' (occurrences ++ more) := by
  intro engine tracks
  refine meets_after ((before engine tracks).imp (fun value between met => ?_)
    fun _ _ blames => blames.mono (List.subset_append_left ..))
  refine (after value between met.1).imp (fun _ met' => ⟨met'.1, met.2.trans met'.2⟩) ?_
  intro _ _ blames
  exact blames.mono (List.subset_append_right ..)

theorem resolves_still {work : Infer Term} (part : α)
    (resolves : work.Resolves site site' occurrences) :
    (still part work).Resolves site site' occurrences :=
  fun engine tracks => meets_still (resolves engine tracks)

theorem Resolves.map {walk : Walk α} (resolves : walk.Resolves site site' occurrences)
    (whole : α → β) : (walk.map whole).Resolves site site' occurrences :=
  resolves

theorem Resolves.within {walk : Walk α} (resolves : walk.Resolves site site' occurrences)
    (whole : α → β) : (walk.within whole).Resolves site site' occurrences :=
  fun engine tracks => (resolves engine tracks).within

theorem Resolves.both {first : Walk α} {second : Walk β}
    (before : first.Resolves site site' occurrences) (part : β)
    (after : second.Resolves site' site'' more) :
    (first.both part second).Resolves site site'' (occurrences ++ more) := by
  intro engine tracks
  refine Meets.both ((before engine tracks).imp (fun between met => ?_)
    fun _ _ blames => blames.mono (List.subset_append_left ..))
  refine (after between met.1).imp (fun _ met' => ⟨met'.1, met.2.trans met'.2⟩) ?_
  intro _ _ blames
  exact blames.mono (List.subset_append_right ..)

/-- What a block declares is not visible after it. -/
theorem Resolves.inScope {walk : Walk α} (idle : site.declaring = none)
    (resolves : walk.Resolves (site.enter []) site' occurrences) (retains : walk.Retains) :
    walk.inScope.Resolves site site occurrences := by
  intro engine tracks
  refine Meets.inScope (((resolves engine.push (tracks.push idle)).and (retains engine.push)).imp
    (fun last met => ?_) fun _ _ met => met.1)
  obtain ⟨⟨inside, accounts⟩, retains⟩ := met
  exact ⟨inside.leaveBlock tracks retains idle, accounts.expects, accounts.found, accounts.adds⟩

end Walk

theorem Engine.Tracks.leave (inside : engine'.Tracks site') (tracks : engine.Tracks site)
    (retains : engine.enter.Retains engine') (idle : site.declaring = none) :
    engine'.leave.Tracks site := by
  have same : engine'.leave.scopes = engine.scopes := retains.scopes.pop
  have closed : engine'.declaring = none := retains.declaring (tracks.declaring.trans idle)
  exact {
    sane := same ▸ tracks.sane
    known := inside.known
    isRoot := same ▸ tracks.isRoot
    declaring := closed.trans idle.symm
    finds := same ▸ tracks.finds
    waits := inside.waits }

/-- The body of a function is a site of its own, in which its parameters are visible. -/
theorem FunctionHeader.resolves_walk (header : FunctionHeader) (body : List Stmt)
    {walk : Walk (List Stmt)} (idle : site.declaring = none) (retains : walk.Retains)
    (resolves : walk.Resolves
      ((site.declare [header.name]).enter (header.parameters.map (·.name))) site' occurrences) :
    (header.walk body walk).Resolves site (site.declare [header.name]) occurrences := by
  intro engine tracks
  refine header.meets_walk ((resolves_function site header engine tracks).imp
    (fun found inner met => ?_) fun _ _ blames => blames.mono (List.nil_subset _))
  obtain ⟨outside, accounts⟩ := met
  have entered : inner.enter.Tracks ((site.declare [header.name]).enter []) :=
    (outside.push idle).congr rfl rfl rfl (outside.declaring.trans idle) rfl fun _ => Iff.rfl
  have taken := resolves_parameters header.parameters ((site.declare [header.name]).enter []) rfl
    inner.enter entered
  rw [Site.declare_enter] at taken
  have kept := (composed_parameters header.parameters).retains inner.enter
  refine (taken.and kept).imp (fun _ start met => ?_)
    fun _ _ met => met.1.mono (List.nil_subset _)
  obtain ⟨⟨begins, accounts'⟩, retains'⟩ := met
  refine ((resolves start begins).and (retains start)).imp (fun last met => ?_)
    fun _ _ met => met.1
  obtain ⟨⟨inside, accounts''⟩, retains''⟩ := met
  have left := inside.leave outside (retains'.trans retains'') idle
  have walked : start.Accounts last.leave occurrences :=
    ⟨accounts''.expects, accounts''.found, accounts''.adds⟩
  have accounted :=
    (accounts.trans ⟨accounts'.expects, accounts'.found, accounts'.adds⟩).trans walked
  refine (quiet_conclusion header found.1 found.2 last.returned last.leave).imp
    (fun _ _ alike => ?_)
    fun _ _ elsewhere => elsewhere.blames _
  exact ⟨alike.tracks left, List.append_nil occurrences ▸ accounted.trans alike.accounts⟩

theorem FunctionHeader.resolves_walkAlone (site : Site) (header : FunctionHeader) :
    header.walkAlone.Resolves site (site.declare [header.name]) [] :=
  resolves_after (resolves_function site header) fun _ =>
    resolves_still _ ((quiet_pure _).resolves _)

theorem Variable.resolves_walk (site : Site) (idle : site.declaring = none) (decl : Variable) :
    decl.walk.Resolves site (site.declare [decl.name])
      ((site.value decl.name).uses (Expr.mentions? decl.value)) :=
  List.append_nil ((site.value decl.name).uses (Expr.mentions? decl.value)) ▸
    resolves_after (resolves_initial site idle decl) fun known =>
      resolves_still _ (resolves_declare site decl known)

mutual

/-- The walk over a statement deals with all uses of names in it, and makes visible what the
statement declares. -/
theorem Stmt.resolves_walk : ∀ (s : Stmt) {site : Site}, s.Loaded → site.declaring = none →
    s.walk.Resolves site (site.declare s.declares) (s.occurrences site)
  | .expr e, site, _, _ => by
      rw [Stmt.declares, Site.declare_nil]
      exact resolves_still _ (e.resolves_infer site)
  | .comment _, site, _, _ | .use _, site, _, _ => by
      rw [Stmt.declares, Site.declare_nil]
      exact resolves_still _ ((quiet_pure _).resolves site)
  | .parameter _, _, loaded, _ | .arm _, _, loaded, _ => by cases loaded
  | .returns value, site, _, _ => by
      rw [Stmt.declares, Site.declare_nil]
      exact resolves_still _ (resolves_returns site value)
  | .declare decl, site, _, idle => (decl.resolves_walk site idle).map _
  | .function header none, site, _, _ => (header.resolves_walkAlone site).within _
  | .function header (some body), _, loaded, idle =>
      (header.resolves_walk body idle (Stmt.composed_walkAll body).retains
        (Stmt.resolves_walkAll body _ loaded.2.2 rfl)).within _
  | .branch condition body alternate, site, loaded, idle => by
      rw [Stmt.declares, Site.declare_nil]
      refine resolves_after (resolves_condition site condition) ?_
      intro _
      exact (((Stmt.resolves_walkAll body _ loaded.1 rfl).inScope idle
        (Stmt.composed_walkAll body).retains).both _
        (Alternate.resolves_walk alternate loaded.2 idle)).within _
  | .loop condition body, site, loaded, idle => by
      rw [Stmt.declares, Site.declare_nil]
      refine resolves_after (resolves_condition site condition) ?_
      intro _
      exact ((Stmt.resolves_walkAll body _ loaded rfl).inScope idle
        (Stmt.composed_walkAll body).retains).within _
  | .switch subject arms, site, loaded, idle => by
      rw [Stmt.declares, Site.declare_nil]
      refine resolves_after (subject.resolves_infer site) ?_
      intro term
      exact (Arm.resolves_walkAll (some term) arms loaded idle).within _
  | .merged body, _, loaded, idle => (Stmt.resolves_walkAll body _ loaded idle).within _

theorem Alternate.resolves_walk : ∀ (alternate : Alternate) {site : Site}, alternate.Loaded →
    site.declaring = none → alternate.walk.Resolves site site (alternate.occurrences site)
  | .none, site, _, _ => resolves_still _ ((quiet_pure _).resolves site)
  | .elseBranch condition body alternate, site, loaded, idle => by
      refine resolves_after (resolves_condition site condition) ?_
      intro _
      exact (((Stmt.resolves_walkAll body _ loaded.1 rfl).inScope idle
        (Stmt.composed_walkAll body).retains).both _
        (Alternate.resolves_walk alternate loaded.2 idle)).within _
  | .otherwise body, site, loaded, idle => by
      have inside := Stmt.resolves_walkAll body (site.enter []) loaded rfl
      exact (inside.inScope idle (Stmt.composed_walkAll body).retains).within _

theorem Arm.resolves_walk (subject : Option Term) : ∀ (arm : Arm) {site : Site}, arm.Loaded →
    site.declaring = none → (arm.walk subject).Resolves site site (arm.occurrences site)
  | .value pattern body, site, loaded, idle => by
      refine resolves_after (resolves_pattern site subject pattern) ?_
      intro _
      exact ((Stmt.resolves_walkAll body _ loaded rfl).inScope idle
        (Stmt.composed_walkAll body).retains).within _
  | .otherwise body, site, loaded, idle => by
      have inside := Stmt.resolves_walkAll body (site.enter []) loaded rfl
      exact (inside.inScope idle (Stmt.composed_walkAll body).retains).within _

/-- Each statement finds what those before it have declared. -/
theorem Stmt.resolves_walkAll : ∀ (body : List Stmt) (site : Site), Stmt.AllLoaded body →
    site.declaring = none →
    (Stmt.walkAll body).Resolves site (site.declare (Stmt.allDeclares body))
      (Stmt.allOccurrences site body)
  | [], site, _, _ => by
      rw [Stmt.allDeclares, Site.declare_nil]
      exact resolves_still _ ((quiet_pure _).resolves site)
  | first :: rest, site, loaded, idle => by
      have after := Stmt.resolves_walkAll rest (site.declare first.declares) loaded.2 idle
      rw [Site.declare_declare] at after
      exact ((Stmt.resolves_walk first loaded.1 idle).both _ after).within _

/-- The arms of a switch declare nothing for one another. -/
theorem Arm.resolves_walkAll (subject : Option Term) : ∀ (arms : List Arm) {site : Site},
    Arm.AllLoaded arms → site.declaring = none →
    (Arm.walkAll subject arms).Resolves site site (Arm.allOccurrences site arms)
  | [], site, _, _ => resolves_still _ ((quiet_pure _).resolves site)
  | first :: rest, _, loaded, idle =>
      ((Arm.resolves_walk subject first loaded.1 idle).both _
        (Arm.resolves_walkAll subject rest loaded.2 idle)).within _

end

end Tracking

section Programs

variable {program : Program} {engine : Engine} {occurrence : Occurrence}

theorem Engine.tracks_start : Engine.start.Tracks .start where
  sane := Scopes.sane_start
  known := rfl
  isRoot := rfl
  declaring := rfl
  finds name := by
    rw [show Engine.start.scopes = Scopes.start from rfl, Scopes.resolve?_start, Option.isSome_map]
    simp [Site.start, Ty.isTypeName]
  waits := List.forall_mem_nil _

/-- Behind the last statement, the root scope has what the program declares. -/
theorem Engine.Tracks.declared
    (tracks : engine.Tracks (Site.start.declare (Stmt.allDeclares program)))
    (name : String) : (engine.scopes.root.lookup name).isSome = true ↔
      Ty.isTypeName name = true ∨ name ∈ Stmt.allDeclares program := by
  rw [Scopes.lookup_root_of_isRoot tracks.isRoot, tracks.finds]
  simp [Site.declare, Site.start]

/-- A run succeeds only if every use of a name is bound, and misses a declaration only where one is
not. -/
theorem Infer.resolves_run (order : ForwardOrder) (loaded : Stmt.AllLoaded program) :
    (run order program).Meets .start
      (fun _ _ => ∀ occurrence ∈ program.occurrences, occurrence.Bound program)
      fun error _ => ∀ name, error.cause = .notDeclared name →
        ∃ occurrence ∈ program.occurrences, occurrence.name = name ∧
          occurrence.position = error.position ∧ ¬ occurrence.Bound program := by
  refine Meets.bind (meets_update (Meets.bind ?_))
  rw [Engine.learn_of_loaded .start loaded]
  have walked := Stmt.resolves_walkAll program .start loaded rfl .start Engine.tracks_start
  refine (meets_walk walked).imp (fun program' last met => ?_) fun error _ blames name missing => ?_
  · obtain ⟨tracks, accounts⟩ := met
    refine Meets.bind (meets_get_bind ?_)
    cases waiting : last.firstForward? order with
    | some reference =>
        intro name missing
        cases missing
        obtain ⟨present, _⟩ := Engine.firstForward?_spec waiting
        obtain ⟨occurrence, used, about, stands, hidden⟩ :=
          (accounts.forward reference present).resolve_left List.not_mem_nil
        refine ⟨occurrence, used, about, stands, fun bound => ?_⟩
        have declared := (bound.resolve_left hidden).1
        have found := (tracks.declared occurrence.name).mpr (.inr declared)
        rw [about, tracks.waits reference present] at found
        cases found
    | none =>
        have none := Engine.firstForward?_eq_none_iff.mp waiting
        refine Meets.bind (meets_update (meets_ofExcept (fun _ _ => ?_) fun error fails => ?_))
        · intro occurrence used
          cases accounts.found occurrence used with
          | inl visible => exact .inl visible
          | inr found =>
              obtain ⟨notType, other, expects⟩ := found
              refine .inr ⟨?_, other⟩
              have settled := expects.resolve_left fun waits => by
                obtain ⟨reference, present, _⟩ := waits
                rw [none] at present
                cases present
              refine ((tracks.declared _).mp settled).resolve_left ?_
              intro isType
              rw [notType] at isType
              cases isType
        · obtain ⟨name, unresolved⟩ := Stmt.cause_of_settleAll_eq_error program' fails
          intro other missing
          rw [unresolved] at missing
          cases missing
  · obtain ⟨occurrence, used, about, stands, hidden, own⟩ := blames name missing
    refine ⟨occurrence, used, about, stands, fun bound => ?_⟩
    exact (bound.resolve_left hidden).2 own

/-- Where inference succeeds, every use of a name is bound. -/
theorem Program.bound_of_infer (loaded : Stmt.AllLoaded program) {typed : Program}
    {order : ForwardOrder} (inferred : program.infer order = .ok typed) :
    ∀ occurrence ∈ program.occurrences, occurrence.Bound program := by
  have resolves := Infer.resolves_run order loaded
  unfold Infer.Meets at resolves
  unfold infer at inferred
  cases ends : Infer.run order program .start with
  | ok found last =>
      rw [ends] at resolves
      exact resolves
  | error error last =>
      rw [ends] at inferred
      cases inferred

/-- Where inference misses the declaration of a name, the use of the name at that position is not
bound. -/
theorem Program.exists_unbound_of_infer (loaded : Stmt.AllLoaded program) {name : String}
    {position : Position} {order : ForwardOrder}
    (fails : program.infer order = .error ⟨.notDeclared name, position⟩) :
    ∃ occurrence ∈ program.occurrences, occurrence.name = name ∧
      occurrence.position = position ∧ ¬ occurrence.Bound program := by
  have resolves := Infer.resolves_run order loaded
  unfold Infer.Meets at resolves
  unfold infer at fails
  cases ends : Infer.run order program .start with
  | ok found last =>
      rw [ends] at fails
      cases fails
  | error error last =>
      rw [ends] at resolves fails
      cases fails
      exact resolves name rfl

/-- Names are resolved exactly: where inference succeeds, every use of a name is bound, and where it
misses the declaration of a name, the use of that name at that position is not. This is so whichever
of several names at one offset it misses. -/
theorem Program.infer_resolves_names (order : ForwardOrder) (loaded : Program.Loaded program) :
    (∀ typed, program.infer order = .ok typed →
      ∀ occurrence ∈ program.occurrences, occurrence.Bound program) ∧
    ∀ name position, program.infer order = .error ⟨.notDeclared name, position⟩ →
      ∃ occurrence ∈ program.occurrences, occurrence.name = name ∧
        occurrence.position = position ∧ ¬ occurrence.Bound program :=
  ⟨fun _ inferred => bound_of_infer loaded.allLoaded inferred,
    fun _ _ fails => exists_unbound_of_infer loaded.allLoaded fails⟩

end Programs

namespace NestedName

/-- A use of a name, and behind it a declaration of the name, in the root scope or in a function. -/
def program (nested : Bool) (note : Option Term) : Program :=
  let used : Stmt :=
    .declare ⟨"y", true, none, some (.identifier "x" ⟨"main", 9⟩), ⟨"main", 0⟩, note⟩
  if nested then
    [used, .function ⟨"f", [], none, [], ⟨"main", 11⟩, none⟩
      (some [.declare ⟨"x", true, none, some (.number "1"), ⟨"main", 20⟩, none⟩])]
  else [used, .declare ⟨"x", true, none, some (.number "1"), ⟨"main", 11⟩, note⟩]

end NestedName

open NestedName in
/-- A declaration behind the use of a name counts in the root scope only. -/
theorem Program.infer_resolves_names_nested :
    Program.read "let y := x\nlet x := 1" "main" = .ok (program false none) ∧
      Program.read "let y := x\nfn f() \x7b let x := 1 \x7d" "main" = .ok (program true none) ∧
      (program false none).infer .byUse = .ok (program false (some (.concrete .int))) ∧
      (program true none).infer .byUse = .error ⟨.notDeclared "x", ⟨"main", 9⟩⟩ ∧
      (∀ occurrence ∈ (program false none).occurrences, occurrence.Bound (program false none)) ∧
      ∃ occurrence ∈ (program true none).occurrences, occurrence.name = "x" ∧
        occurrence.position = ⟨"main", 9⟩ ∧ ¬ occurrence.Bound (program true none) := by
  have reads : Program.read "let y := x\nlet x := 1" "main" = .ok (program false none) :=
    read_of_toOption (by decide +kernel)
  have reads' : Program.read "let y := x\nfn f() \x7b let x := 1 \x7d" "main" =
      .ok (program true none) := read_of_toOption (by decide +kernel)
  have inferred : (program false none).infer .byUse =
      .ok (program false (some (.concrete .int))) := by rfl
  have missed : (program true none).infer .byUse = .error ⟨.notDeclared "x", ⟨"main", 9⟩⟩ := by rfl
  obtain ⟨_, _, parsed⟩ := exists_tokens_of_read reads
  obtain ⟨_, _, parsed'⟩ := exists_tokens_of_read reads'
  exact ⟨reads, reads', inferred, missed,
    (infer_resolves_names .byUse (.parsed parsed)).1 _ inferred,
    (infer_resolves_names .byUse (.parsed parsed')).2 _ _ missed⟩

end SmallLang
