/-
Names that no program may call, whatever the context offers: evaluation,
reflection, process control, files and global state of a general-purpose
host. Matching is exact.

The list is in ascending order, by code points, which is the order of the
bytes too; an underscore stands between the digits and the small letters. A
name is looked for by halving: a name out of its place in the list would
not be found, so that the order is what a denial rests on.

# Main statements

* `denylist_ascending` — the list is in ascending order.
* `isDenied_iff` — a name is denied exactly if it is on the list.
-/
import UiScript.Halving

namespace UiScript.Policy

/-- The names that no program may call, in ascending order. -/
def denylist : List String :=
  ["__send__", "abort", "alias_method", "ancestors", "at_exit", "autoload", "binding", "caller",
    "caller_locations", "chdir", "class", "class_eval", "class_exec", "class_variable_get",
    "class_variable_set", "class_variables", "clone", "const_get", "const_missing", "const_set",
    "constants", "define_method", "define_singleton_method", "dir", "display", "dup", "eval",
    "exec", "exit", "extend", "fail", "file", "fork", "freeze", "gets", "global_variables",
    "include", "instance_eval", "instance_exec", "instance_method", "instance_variable_get",
    "instance_variable_set", "instance_variables", "io", "itself", "kill", "load", "loop",
    "method", "method_missing", "methods", "module_eval", "module_function", "object_id", "open",
    "pipe", "popen", "pp", "prepend", "print", "private", "protected", "public", "public_method",
    "public_send", "putc", "puts", "raise", "read", "readline", "readlines", "remove_const",
    "remove_method", "require", "require_relative", "respond_to_missing", "send",
    "set_trace_func", "singleton_class", "singleton_method", "sleep", "spawn", "superclass",
    "syscall", "sysopen", "sysread", "system", "syswrite", "tap", "then", "throw", "trace_var",
    "trap", "undef_method", "warn", "write"]

-- ================================================================== search

/-- Whether a name is on the denylist. -/
def isDenied (name : String) : Bool := (Halving.search denylist name).isOk

-- ==================================================================== laws

/-- Whether each entry is less than the next one. -/
def isAscending : List String → Bool
  | first :: second :: rest => decide (first < second) && isAscending (second :: rest)
  | _ => true

theorem pairwise_of_isAscending {entries : List String} (h : isAscending entries = true) :
    entries.Pairwise (· < ·) := by
  induction entries with
  | nil => exact .nil
  | cons first rest ih =>
    cases rest with
    | nil => exact List.pairwise_singleton _ first
    | cons second rest =>
      simp only [isAscending, Bool.and_eq_true, decide_eq_true_eq] at h
      have hrest := ih h.2
      refine .cons (fun name hname => ?_) hrest
      rcases List.mem_cons.1 hname with rfl | hname
      · exact h.1
      · exact String.lt_trans h.1 (List.rel_of_pairwise_cons hrest hname)

/-- The list is in ascending order. The search by halving relies on it, and so
does everything that is proved of the list. -/
theorem denylist_ascending : denylist.Pairwise (· < ·) := pairwise_of_isAscending (by decide +kernel)

/-- A name is denied exactly if it is on the list. Halving an ascending list
misses nothing that is on it. -/
theorem isDenied_iff {name : String} : isDenied name = true ↔ name ∈ denylist := by
  unfold isDenied
  rcases Halving.search_spec (x := name) denylist_ascending with
    ⟨i, hfound, hi, -⟩ | ⟨hmissed, hnot⟩
  · rw [hfound]
    exact iff_of_true rfl (List.mem_of_getElem? hi)
  · rw [hmissed]
    exact iff_of_false Bool.false_ne_true hnot

end UiScript.Policy
