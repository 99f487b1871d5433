import TraceProbe.Diagnostic

/-!
# Computations without a fault

What a computation has gone through when it ends with a result.
-/

namespace TraceProbe

section Sequences

variable {α β ε : Type} {f : α → Except ε β} {item : α} {items : List α} {results : List β}

theorem ok_of_bind {step : Except ε α} {next : α → Except ε β} {result : β}
    (found : step >>= next = .ok result) : ∃ value, step = .ok value ∧ next value = .ok result := by
  cases step with
  | error fault => cases found
  | ok value => exact ⟨value, rfl, found⟩

theorem error_of_bind {step : Except ε α} {next : α → Except ε β} {fault : ε}
    (failed : step >>= next = .error fault) :
    step = .error fault ∨ ∃ value, step = .ok value ∧ next value = .error fault := by
  cases step with
  | error other =>
      cases failed
      exact .inl rfl
  | ok value => exact .inr ⟨value, rfl, failed⟩

theorem cons_of_mapM (found : (item :: items).mapM f = .ok results) :
    ∃ first others, f item = .ok first ∧ items.mapM f = .ok others ∧ results = first :: others := by
  rw [List.mapM_cons] at found
  obtain ⟨first, here, found⟩ := ok_of_bind found
  obtain ⟨others, there, found⟩ := ok_of_bind found
  cases found
  exact ⟨first, others, here, there, rfl⟩

theorem exists_of_mem_mapM (found : items.mapM f = .ok results) {result : β}
    (member : result ∈ results) : ∃ item ∈ items, f item = .ok result := by
  induction items generalizing results with
  | nil =>
      cases found
      cases member
  | cons item items ih =>
      obtain ⟨first, others, here, there, rfl⟩ := cons_of_mapM found
      rcases List.mem_cons.mp member with rfl | later
      · exact ⟨item, List.mem_cons_self, here⟩
      · obtain ⟨other, inside, same⟩ := ih there later
        exact ⟨other, List.mem_cons_of_mem _ inside, same⟩

theorem exists_result_of_mapM (found : items.mapM f = .ok results) (member : item ∈ items) :
    ∃ result ∈ results, f item = .ok result := by
  induction items generalizing results with
  | nil => cases member
  | cons head items ih =>
      obtain ⟨first, others, here, there, rfl⟩ := cons_of_mapM found
      rcases List.mem_cons.mp member with rfl | later
      · exact ⟨first, List.mem_cons_self, here⟩
      · obtain ⟨result, inside, same⟩ := ih there later
        exact ⟨result, List.mem_cons_of_mem _ inside, same⟩

theorem exists_error_of_mapM {fault : ε} (found : items.mapM f = .error fault) :
    ∃ item ∈ items, f item = .error fault := by
  induction items with
  | nil => cases found
  | cons item items ih =>
      rw [List.mapM_cons] at found
      cases here : f item with
      | error other =>
          rw [here] at found
          cases found
          exact ⟨item, List.mem_cons_self, here⟩
      | ok first =>
          rw [here] at found
          cases there : items.mapM f with
          | error other =>
              simp only [bind, Except.bind, there] at found
              cases found
              obtain ⟨later, member, same⟩ := ih there
              exact ⟨later, List.mem_cons_of_mem _ member, same⟩
          | ok others =>
              simp only [bind, Except.bind, there] at found
              cases found

theorem exists_results_of_each (each : ∀ item ∈ items, ∃ result, f item = .ok result) :
    ∃ results, items.mapM f = .ok results := by
  induction items with
  | nil => exact ⟨[], rfl⟩
  | cons item items ih =>
      obtain ⟨result, here⟩ := each item List.mem_cons_self
      obtain ⟨results, there⟩ := ih fun other member => each other (List.mem_cons_of_mem _ member)
      refine ⟨result :: results, ?_⟩
      rw [List.mapM_cons, here]
      simp only [bind, Except.bind, there]
      rfl

end Sequences

theorem ok_of_map {α β ε : Type} {f : α → β} {given : Except ε α} {result : β}
    (found : given.map f = .ok result) : ∃ value, given = .ok value ∧ f value = result := by
  cases given with
  | error fault => cases found
  | ok value => exact ⟨value, rfl, Except.ok.inj found⟩

theorem error_of_map {α β ε : Type} {f : α → β} {given : Except ε α} {fault : ε}
    (failed : given.map f = .error fault) : given = .error fault := by
  cases given with
  | error other =>
      cases failed
      rfl
  | ok value => cases failed

theorem ok_of_lift {α : Type} {given : Except Diagnostic α} {result : α}
    (found : (liftM given : Except Fault α) = .ok result) : given = .ok result := by
  cases given with
  | error fault => cases found
  | ok value =>
      cases found
      rfl

end TraceProbe
