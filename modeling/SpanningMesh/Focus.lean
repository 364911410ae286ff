/-!
# Parts of a context

Work that is kept in one part of a larger state may act on the whole of it when
it runs: a handler may send, a task may add tasks.  A `Focus` says how to find
and to replace the part, so that what keeps the work need not know the whole.
-/

namespace SpanningMesh

/-- A part of a context. -/
structure Focus (γ τ : Type) where
  get : γ → τ
  set : τ → γ → γ

namespace Focus

variable {γ τ : Type}

/-- The context with the part changed by a function. -/
def modify (f : Focus γ τ) (g : τ → τ) (c : γ) : γ := f.set (g (f.get c)) c

/-- The part that is all of a context. -/
def whole : Focus γ γ := ⟨id, fun t _ => t⟩

/-- What is read is what was written, writing back what was read changes nothing, and the
last write wins. -/
structure Lawful (f : Focus γ τ) : Prop where
  get_set : ∀ t c, f.get (f.set t c) = t
  set_get : ∀ c, f.set (f.get c) c = c
  /-- The last write wins. -/
  set_set : ∀ t u c, f.set t (f.set u c) = f.set t c

theorem lawful_whole : (whole : Focus γ γ).Lawful := ⟨fun _ _ => rfl, fun _ => rfl, fun _ _ _ => rfl⟩

end Focus

end SpanningMesh
