import SmallLang.Directory
import SmallLang.Proofs.Command.Paths
import SmallLang.Proofs.Module.Words

/-!
# Files of modules

The files below a root hold under the path of a module what the directory has there. So it does not
matter whether a module is taken from them or read by its path.
-/

set_option autoImplicit false

namespace SmallLang

namespace Files

variable {files : Files} {path found : Path} {text : String}

end Files

namespace Directory

/-- A directory as it can be: files lie under names, and no two of them under the same ones. -/
structure Proper (directory : Directory) : Prop where
  names : ∀ entry ∈ directory, ∀ name ∈ entry.1, Path.IsName name
  distinct : (directory.map Prod.fst).Nodup

variable {directory : Directory} {names found inner segments : List String} {text : String}

/-! ### Following segments -/

variable {base path found' : Path}

theorem Proper.lookup_of_mem (proper : directory.Proper) (present : (names, text) ∈ directory) :
    directory.lookup names = some text := by
  obtain ⟨before, after, split⟩ := List.append_of_mem present
  refine List.lookup_eq_some_iff.mpr ⟨before, after, split, fun entry earlier => ?_⟩
  have distinct := proper.distinct
  rw [split, List.map_append, List.nodup_append] at distinct
  refine bne_iff_ne.mpr ?_
  intro same
  exact distinct.2.2 entry.1 (List.mem_map_of_mem earlier) names List.mem_cons_self same.symm

end Directory

namespace Workspace

variable {path : String}

end Workspace

end SmallLang
