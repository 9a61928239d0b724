import SmallLang.Command

/-!
# Arguments

The arguments of the command are one file, and before and after it any number of roots of the
standard library. Each root is announced, and the last one counts.
-/

set_option autoImplicit false

namespace SmallLang.Command.Options

/-- Arguments that announce some roots of the standard library. -/
def announcing (roots : List String) : List String := roots.flatMap fun root => ["--std", root]

/-- What arguments ask for where the standard library has some root unless they say otherwise. They
name one file, which is not taken for an announcement, and any number of roots on both sides. -/
def AskedBy (options : Options) (root : String) (arguments : List String) : Prop :=
  ∃ before file after, file ≠ "--std" ∧
    arguments = announcing before ++ file :: announcing after ∧
    options = ⟨⟨file⟩, ⟨(before ++ after).getLastD root⟩⟩

variable {options : Options} {arguments rest : List String} {file : Option Path} {standard : Path}

theorem read?_announced (root : String) :
    read? file standard ("--std" :: root :: rest) = read? file ⟨root⟩ rest := by
  rw [read?]

/-- An argument that is no announcement is the file, unless there is one already. -/
theorem read?_argument {argument : String} (plain : argument ≠ "--std") :
    read? file standard (argument :: rest) =
      file.elim (read? (some ⟨argument⟩) standard rest) fun _ => none := by
  cases file with
  | none => rw [read?, Option.elim_none] <;> simp [plain]
  | some path => rw [read?, Option.elim_some] <;> simp [plain]

/-- Behind the file there are roots only. -/
theorem read?_some_eq_some_iff {path : Path} : ∀ {arguments : List String} {root : String},
    read? (some path) ⟨root⟩ arguments = some options ↔
      ∃ roots, arguments = announcing roots ∧ options = ⟨path, ⟨roots.getLastD root⟩⟩
  | [], root => by
      constructor
      · rintro ⟨⟩
        exact ⟨[], rfl, rfl⟩
      · rintro ⟨_ | _, same, rfl⟩
        · rfl
        · cases same
  | [argument], root => by
      have fails : read? (some path) ⟨root⟩ [argument] = none := by
        by_cases announces : argument = "--std"
        · rw [announces, read?]
        · rw [read?_argument announces, Option.elim_some]
      rw [fails]
      constructor
      · nofun
      · rintro ⟨_ | _, same, _⟩ <;> cases same
  | argument :: next :: rest, root => by
      by_cases announces : argument = "--std"
      · rw [announces, read?_announced, read?_some_eq_some_iff]
        constructor
        · rintro ⟨roots, rfl, rfl⟩
          exact ⟨next :: roots, rfl, by rw [List.getLastD_cons]⟩
        · rintro ⟨_ | ⟨first, roots⟩, same, rfl⟩
          · cases same
          · cases same
            exact ⟨roots, rfl, by rw [List.getLastD_cons]⟩
      · rw [read?_argument announces, Option.elim_some]
        constructor
        · nofun
        · rintro ⟨_ | ⟨first, roots⟩, same, _⟩
          · cases same
          · exact absurd (List.cons.inj same).1 announces

/-- Where the file comes first, there are roots only behind it. -/
theorem read?_file_eq_some_iff {argument root : String} (plain : argument ≠ "--std") :
    read? none ⟨root⟩ (argument :: rest) = some options ↔
      options.AskedBy root (argument :: rest) := by
  rw [read?_argument plain, Option.elim_none, read?_some_eq_some_iff]
  constructor
  · rintro ⟨roots, rfl, rfl⟩
    exact ⟨[], argument, roots, plain, rfl, rfl⟩
  · rintro ⟨_ | ⟨first, before⟩, file, after, _, same, rfl⟩
    · cases same
      exact ⟨after, rfl, rfl⟩
    · exact absurd (List.cons.inj same).1 plain

/-- Before the file there are roots only. -/
theorem read?_none_eq_some_iff : ∀ {arguments : List String} {root : String},
    read? none ⟨root⟩ arguments = some options ↔ options.AskedBy root arguments
  | [], root => by
      constructor
      · nofun
      · rintro ⟨_ | _, _, _, _, same, _⟩ <;> cases same
  | [argument], root => by
      by_cases announces : argument = "--std"
      · rw [announces, read?]
        constructor
        · nofun
        · rintro ⟨_ | _, _, _, plain, same, _⟩
          · exact absurd (List.cons.inj same).1.symm plain
          · cases same
      · exact read?_file_eq_some_iff announces
  | argument :: next :: rest, root => by
      by_cases announces : argument = "--std"
      · rw [announces, read?_announced, read?_none_eq_some_iff]
        constructor
        · rintro ⟨before, file, after, plain, rfl, rfl⟩
          refine ⟨next :: before, file, after, plain, rfl, ?_⟩
          rw [List.cons_append, List.getLastD_cons]
        · rintro ⟨_ | ⟨first, before⟩, file, after, plain, same, rfl⟩
          · exact absurd (List.cons.inj same).1.symm plain
          · cases same
            refine ⟨before, file, after, plain, rfl, ?_⟩
            rw [List.cons_append, List.getLastD_cons]
      · exact read?_file_eq_some_iff announces

/-- The arguments of the command are read as what they ask for, and as nothing else. -/
theorem ofArguments?_eq_some_iff :
    ofArguments? arguments = some options ↔ options.AskedBy "std" arguments :=
  read?_none_eq_some_iff

end SmallLang.Command.Options
