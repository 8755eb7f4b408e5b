import ZHyper.Lib.Runs

/-!
# Broadcasts

A log holds what was delivered to whom, in order, and `heard i` is the part of it for `i`.
`broadcast rs cs` is the log when each of `cs` goes to all of `rs` before the next: each of `rs`
hears `cs` (`heard_broadcast`).  A machine whose steps broadcast is heard by `i` whenever `i` was
addressed (`heard_run`).
-/

namespace LowLevel

variable {ι ω σ ε : Type*}

def broadcast (rs : List ι) (cs : List ω) : List (ι × ω) :=
  cs.flatMap fun c => rs.map fun i => (i, c)

theorem broadcast_cons (rs : List ι) (c : ω) (cs : List ω) :
    broadcast rs (c :: cs) = broadcast rs [c] ++ broadcast rs cs := by
  simp [broadcast]

variable [DecidableEq ι] {i : ι} {rs : List ι} {cs : List ω}

def heard (i : ι) (log : List (ι × ω)) : List ω := (log.filter fun d => d.1 = i).map Prod.snd

theorem heard_append (i : ι) (log log' : List (ι × ω)) :
    heard i (log ++ log') = heard i log ++ heard i log' := by
  rw [heard, List.filter_append, List.map_append]
  rfl

/-- One item, to everyone once. -/
theorem heard_item (hrs : rs.Nodup) (c : ω) :
    heard i (rs.map fun j => (j, c)) = if i ∈ rs then [c] else [] := by
  induction rs with
  | nil => rfl
  | cons j rs ih =>
    obtain ⟨hj, hrs⟩ := List.nodup_cons.mp hrs
    rw [List.map_cons, heard, List.filter_cons]
    by_cases hij : j = i
    · have hrest := ih hrs
      rw [← hij, if_neg hj] at hrest
      rw [← hij, if_pos (by simp), if_pos List.mem_cons_self, List.map_cons]
      exact congrArg (c :: ·) hrest
    · rw [if_neg (by simpa using hij)]
      refine (ih hrs).trans ?_
      simp [Ne.symm hij]

theorem heard_broadcast (hrs : rs.Nodup) (cs : List ω) :
    heard i (broadcast rs cs) = if i ∈ rs then cs else [] := by
  induction cs with
  | nil => simp [broadcast, heard]
  | cons c cs ih =>
    rw [broadcast, List.flatMap_cons, heard_append, heard_item hrs]
    refine (congrArg _ ih).trans ?_
    split <;> rfl

/-- **Runs.**  Each step sends what it says to everyone it addresses. -/
theorem heard_run {step : σ → ε → σ → Prop} {I : σ → Prop} {log : σ → List (ι × ω)}
    {rcpts : ε → List ι} {said : ε → List ω} (hnodup : ∀ e, (rcpts e).Nodup)
    (hstep : ∀ s e t, I s → step s e t → I t ∧ log t = log s ++ broadcast (rcpts e) (said e))
    {s t : σ} {es : List ε} (hrun : Runs step s es t) (hs : I s) :
    heard i (log t) = heard i (log s) ++ es.flatMap fun e => if i ∈ rcpts e then said e
      else [] := by
  induction hrun with
  | nil s => simp
  | cons h _ ih =>
    obtain ⟨ht, hlog⟩ := hstep _ _ _ hs h
    rw [ih ht, hlog, heard_append, heard_broadcast (hnodup _), List.flatMap_cons, List.append_assoc]

end LowLevel
