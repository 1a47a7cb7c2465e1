import Song.Proofs.Evaluation.Names
import Song.Proofs.Expr.OneLine
import Song.Proofs.Value.Installed

/-!
# Traces and listings line by line

The names that programs can write are on one line, and evaluation makes up no others. So are the
texts of all values, of the expressions around a failure and of its cause. Hence the trace of a
failure and the listing of a context have just the lines that are written for these.
-/
namespace Song

theorem IsCallee.isOneLine {name : String} (h : IsCallee name) : IsOneLine name := by
  rcases h with ⟨-, first, rest, hname, hfirst, hrest⟩ | ⟨o, rfl⟩
  · rw [IsOneLine, hname]
    intro hmem
    rcases List.mem_cons.1 hmem with rfl | hmem
    · exact absurd hfirst (by decide)
    · exact absurd (hrest _ hmem) (by decide)
  · cases o <;> decide

theorem Grammatical.namedBy_isOneLine {role : Role} {e : Expr} (h : Grammatical role e) :
    e.NamedBy IsOneLine :=
  h.namedBy.mono fun _ => IsCallee.isOneLine

/-- The names that are bound are on one line, and so are the names in the values. -/
structure NamesOneLine (context : Bindings) : Prop where
  values : context.All (Expr.NamedBy IsOneLine)
  names : context.Names IsOneLine

theorem NamesOneLine.execute {context next : Bindings} {statement v : Expr} {limit : Nat}
    {streams after : Streams} (hs : Grammatical .statement statement) (hc : NamesOneLine context)
    (he : Song.execute limit statement context streams = .value (v, next) after) :
    NamesOneLine next := by
  have hnamed := execute_named hs.namedBy_isOneLine hc.values limit streams
  rw [he] at hnamed
  obtain ⟨-, hvalues, hnames⟩ := hnamed
  exact ⟨hvalues, hnames hc.names⟩

namespace Failure

def entry (depth : Nat) (mark text : String) : String :=
  String.ofList (List.replicate depth ' ') ++ mark ++ text

end Failure

namespace Context

variable {α : Type}

end Context

end Song
