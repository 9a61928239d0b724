import SmallLang.Proofs.Module.Failed
import SmallLang.Proofs.Module.Words

/-!
# What resolution depends on

Resolution reads the files of modules and no others. So it comes to the same end over any files that
have the same under the paths of modules, however they are kept.
-/

set_option autoImplicit false

namespace SmallLang.Workspace

/-! ### There is one end -/

section Unique

variable {workspace : Workspace} {resolver later later' : Resolver} {program body body' : Program}
  {aliases aliases' : Aliases} {error error' : Error} {blamed blamed' : Use}

theorem Replaces.unique (replaces : workspace.Replaces resolver program body aliases later)
    (replaces' : workspace.Replaces resolver program body' aliases' later') :
    body = body' ∧ aliases = aliases' ∧ later = later' := by
  induction replaces generalizing body' aliases' later' with
  | nil =>
      cases replaces'
      exact ⟨rfl, rfl, rfl⟩
  | dropped done _ ih =>
      cases replaces' with
      | dropped _ rest =>
          obtain ⟨rfl, rfl, rfl⟩ := ih rest
          exact ⟨rfl, rfl, rfl⟩
      | merged new =>
          rw [new] at done
          cases done
      | kept notUse => exact absurd rfl (notUse _)
  | merged new found reads _ _ ihInside ihRest =>
      cases replaces' with
      | dropped done =>
          rw [new] at done
          cases done
      | merged _ found' reads' inside rest =>
          obtain rfl := Option.some.inj (found.symm.trans found')
          obtain rfl := Except.ok.inj (reads.symm.trans reads')
          obtain ⟨rfl, rfl, rfl⟩ := ihInside inside
          obtain ⟨rfl, rfl, rfl⟩ := ihRest rest
          exact ⟨rfl, rfl, rfl⟩
      | kept notUse => exact absurd rfl (notUse _)
  | kept notUse _ ih =>
      cases replaces' with
      | dropped => exact absurd rfl (notUse _)
      | merged => exact absurd rfl (notUse _)
      | kept _ rest =>
          obtain ⟨rfl, rfl, rfl⟩ := ih rest
          exact ⟨rfl, rfl, rfl⟩

/-- What is replaced does not fail. -/
theorem Replaces.not_fails (replaces : workspace.Replaces resolver program body aliases later) :
    ¬ workspace.Fails resolver program error blamed later' := by
  induction replaces generalizing later' with
  | nil => nofun
  | dropped done _ ih =>
      intro fails
      cases fails with
      | dropped _ rest => exact ih rest
      | broken new | inside new | merged new =>
          rw [new] at done
          cases done
      | kept notUse => exact absurd rfl (notUse _)
  | merged new found reads inside _ ihInside ihRest =>
      intro fails
      cases fails with
      | broken _ breaks =>
          obtain ⟨missing, _⟩ | ⟨source, found', fails⟩ := breaks
          · rw [missing] at found
            cases found
          · obtain rfl := Option.some.inj (found.symm.trans found')
            rw [fails] at reads
            cases reads
      | inside _ found' reads' fails =>
          obtain rfl := Option.some.inj (found.symm.trans found')
          obtain rfl := Except.ok.inj (reads.symm.trans reads')
          exact ihInside fails
      | merged _ found' reads' inside' fails =>
          obtain rfl := Option.some.inj (found.symm.trans found')
          obtain rfl := Except.ok.inj (reads.symm.trans reads')
          obtain ⟨rfl, rfl, rfl⟩ := inside.unique inside'
          exact ihRest fails
      | dropped done =>
          rw [new] at done
          cases done
      | kept notUse => exact absurd rfl (notUse _)
  | kept notUse _ ih =>
      intro fails
      cases fails with
      | kept _ rest => exact ih rest
      | _ => exact absurd rfl (notUse _)

theorem Breaks.unique {used : Use} (breaks : workspace.Breaks used error)
    (breaks' : workspace.Breaks used error') : error = error' := by
  obtain ⟨missing, rfl⟩ | ⟨source, found, fails⟩ := breaks
  · obtain ⟨_, rfl⟩ | ⟨source, found, _⟩ := breaks'
    · rfl
    · rw [missing] at found
      cases found
  · obtain ⟨missing, _⟩ | ⟨source', found', fails'⟩ := breaks'
    · rw [missing] at found
      cases found
    · obtain rfl := Option.some.inj (found.symm.trans found')
      exact Except.error.inj (fails.symm.trans fails')

/-- A file without a module is not replaced by one. -/
theorem Breaks.not_reads {used : Use} {source : String} {module : Program}
    (breaks : workspace.Breaks used error)
    (found : workspace.files.read? (workspace.modulePath used.path) = some source) :
    Program.read source (workspace.modulePath used.path).text ≠ .ok module := by
  intro reads
  obtain ⟨missing, _⟩ | ⟨source', found', fails⟩ := breaks
  · rw [missing] at found
    cases found
  · obtain rfl := Option.some.inj (found.symm.trans found')
    rw [fails] at reads
    cases reads

theorem Fails.unique (fails : workspace.Fails resolver program error blamed later)
    (fails' : workspace.Fails resolver program error' blamed' later') :
    error = error' ∧ later = later' := by
  induction fails generalizing later' with
  | broken new breaks =>
      cases fails' with
      | broken _ breaks' => exact ⟨breaks.unique breaks', rfl⟩
      | inside _ found reads => exact absurd reads (breaks.not_reads found)
      | merged _ found reads => exact absurd reads (breaks.not_reads found)
      | dropped done =>
          rw [new] at done
          cases done
      | kept notUse => exact absurd rfl (notUse _)
  | inside new found reads inside ih =>
      cases fails' with
      | broken _ breaks => exact absurd reads (breaks.not_reads found)
      | inside _ found' reads' inside' =>
          obtain rfl := Option.some.inj (found.symm.trans found')
          obtain rfl := Except.ok.inj (reads.symm.trans reads')
          exact ih inside'
      | merged _ found' reads' replaces =>
          obtain rfl := Option.some.inj (found.symm.trans found')
          obtain rfl := Except.ok.inj (reads.symm.trans reads')
          exact absurd inside replaces.not_fails
      | dropped done =>
          rw [new] at done
          cases done
      | kept notUse => exact absurd rfl (notUse _)
  | dropped done _ ih =>
      cases fails' with
      | dropped _ rest => exact ih rest
      | broken new | inside new | merged new =>
          rw [new] at done
          cases done
      | kept notUse => exact absurd rfl (notUse _)
  | merged new found reads replaces _ ih =>
      cases fails' with
      | broken _ breaks => exact absurd reads (breaks.not_reads found)
      | inside _ found' reads' inside =>
          obtain rfl := Option.some.inj (found.symm.trans found')
          obtain rfl := Except.ok.inj (reads.symm.trans reads')
          exact absurd inside replaces.not_fails
      | merged _ found' reads' replaces' rest =>
          obtain rfl := Option.some.inj (found.symm.trans found')
          obtain rfl := Except.ok.inj (reads.symm.trans reads')
          obtain ⟨rfl, rfl, rfl⟩ := replaces.unique replaces'
          exact ih rest
      | dropped done =>
          rw [new] at done
          cases done
      | kept notUse => exact absurd rfl (notUse _)
  | kept notUse _ ih =>
      cases fails' with
      | kept _ rest => exact ih rest
      | _ => exact absurd rfl (notUse _)

end Unique

/-! ### Other files -/

section Files

variable {files files' : Files} {project standard : Path}

/-- Some files hold under the path of each module what others hold. -/
def Present (project standard : Path) (files files' : Files) : Prop :=
  ∀ path, Undotted path → files.read? (modulePath ⟨files, project, standard⟩ path) =
    files'.read? (modulePath ⟨files', project, standard⟩ path)

variable {resolver later : Resolver} {program body : Program} {aliases : Aliases} {error : Error}
  {blamed : Use}

theorem Replaces.of_files (same : Present project standard files files')
    (replaces : Replaces ⟨files, project, standard⟩ resolver program body aliases later)
    (undotted : ∀ s ∈ program, s.Undotted) :
    Replaces ⟨files', project, standard⟩ resolver program body aliases later := by
  induction replaces with
  | nil => exact .nil
  | dropped done _ ih =>
      exact .dropped done (ih fun s present => undotted s (List.mem_cons_of_mem _ present))
  | merged new found reads _ _ ihInside ihRest =>
      have path := (undotted _ List.mem_cons_self).path _ rfl
      exact .merged new ((same _ path).symm.trans found) reads
        (ihInside (Program.undotted_of_read reads))
        (ihRest fun s present => undotted s (List.mem_cons_of_mem _ present))
  | kept notUse _ ih =>
      exact .kept notUse (ih fun s present => undotted s (List.mem_cons_of_mem _ present))

theorem Breaks.of_files (same : Present project standard files files') {used : Use}
    (undotted : Undotted used.path) (breaks : Breaks ⟨files, project, standard⟩ used error) :
    Breaks ⟨files', project, standard⟩ used error := by
  have found := same _ undotted
  obtain ⟨missing, rfl⟩ | ⟨source, reads, fails⟩ := breaks
  · exact .inl ⟨found.symm.trans missing, rfl⟩
  · exact .inr ⟨source, found.symm.trans reads, fails⟩

theorem Fails.of_files (same : Present project standard files files')
    (fails : Fails ⟨files, project, standard⟩ resolver program error blamed later)
    (undotted : ∀ s ∈ program, s.Undotted) :
    Fails ⟨files', project, standard⟩ resolver program error blamed later := by
  induction fails with
  | broken new breaks =>
      exact .broken new (breaks.of_files same ((undotted _ List.mem_cons_self).path _ rfl))
  | inside new found reads _ ih =>
      have path := (undotted _ List.mem_cons_self).path _ rfl
      exact .inside new ((same _ path).symm.trans found) reads
        (ih (Program.undotted_of_read reads))
  | dropped done _ ih =>
      exact .dropped done (ih fun s present => undotted s (List.mem_cons_of_mem _ present))
  | merged new found reads replaces _ ih =>
      have path := (undotted _ List.mem_cons_self).path _ rfl
      exact .merged new ((same _ path).symm.trans found) reads
        (replaces.of_files same (Program.undotted_of_read reads))
        (ih fun s present => undotted s (List.mem_cons_of_mem _ present))
  | kept notUse _ ih =>
      exact .kept notUse (ih fun s present => undotted s (List.mem_cons_of_mem _ present))

/-- Resolution comes to the same end where modules are the same. -/
theorem resolve_eq_of_files (same : Present project standard files files')
    (undotted : ∀ s ∈ program, s.Undotted) :
    resolve ⟨files, project, standard⟩ program resolver =
      resolve ⟨files', project, standard⟩ program resolver := by
  cases ends : resolve ⟨files, project, standard⟩ program resolver with
  | ok merged later =>
      obtain ⟨body, aliases, replaces, rfl⟩ := replaces_of_resolve ends
      have replaces := replaces.of_files same undotted
      cases ends' : resolve ⟨files', project, standard⟩ program resolver with
      | ok merged' later' =>
          obtain ⟨body', aliases', replaces', rfl⟩ := replaces_of_resolve ends'
          obtain ⟨rfl, rfl, rfl⟩ := replaces.unique replaces'
          rfl
      | error error later' =>
          obtain ⟨_, fails⟩ := fails_of_resolve ends'
          exact absurd fails replaces.not_fails
  | error error later =>
      obtain ⟨_, fails⟩ := fails_of_resolve ends
      have fails := fails.of_files same undotted
      cases ends' : resolve ⟨files', project, standard⟩ program resolver with
      | ok merged' later' =>
          obtain ⟨_, _, replaces, _⟩ := replaces_of_resolve ends'
          exact absurd fails replaces.not_fails
      | error error' later' =>
          obtain ⟨_, fails'⟩ := fails_of_resolve ends'
          obtain ⟨rfl, rfl⟩ := fails.unique fails'
          rfl

end Files

end SmallLang.Workspace

namespace SmallLang.Analysis

/-- So does an analysis. -/
theorem ofModules_eq_of_files {files files' : Files} {project standard : Path}
    (same : Workspace.Present project standard files files') (order : ForwardOrder)
    (resolver : Resolver) (source file : String) :
    ofModules order ⟨files, project, standard⟩ resolver source file =
      ofModules order ⟨files', project, standard⟩ resolver source file := by
  unfold ofModules
  cases reads : Program.read source file with
  | error error => rfl
  | ok program =>
      simp only [bind, Except.bind,
        Workspace.resolve_eq_of_files same (Program.undotted_of_read reads)]

end SmallLang.Analysis
