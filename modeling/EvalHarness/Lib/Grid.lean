import Mathlib

set_option autoImplicit false

/-! # Values carried along a grid

Events happen at places of a grid, in order, several at one place or none. At each place the value
of the last event up to it is held. A loop over the events tells the held values if it fills the
places that it passes with the value it carries. -/

namespace Grid

variable {β : Type}

/-- The value held at a place: that of the last event up to it, or the first value. -/
def held (initial : β) (events : List (ℕ × β)) (k : ℕ) : β :=
  ((events.filter (fun e => e.1 ≤ k)).getLast?.map Prod.snd).getD initial

/-- The loop, from some place on, with the value it carries. -/
def carry (place : ℕ) (last : β) : List (ℕ × β) → List (ℕ × β)
  | [] => [(place, last)]
  | e :: rest =>
      (List.range' place (e.1 - place)).map (fun k => (k, last))
        ++ carry (place + (e.1 - place)) e.2 rest

/-- The place of the last event, or the first place. -/
def lastPlace (place : ℕ) (events : List (ℕ × β)) : ℕ :=
  (events.getLast?.map Prod.fst).getD place

theorem getD_getLast?_cons {α γ : Type} (f : α → γ) (a : α) (l : List α) (c : γ) :
    ((a :: l).getLast?.map f).getD c = (l.getLast?.map f).getD (f a) := by
  rw [List.getLast?_cons]
  rcases l.getLast? with _ | last
  · rfl
  · rfl

theorem held_of_later {initial : β} {events : List (ℕ × β)} {k : ℕ}
    (h : ∀ e ∈ events, k < e.1) : held initial events k = initial := by
  have hnone : events.filter (fun e => e.1 ≤ k) = [] := by
    rw [List.filter_eq_nil_iff]
    intro e he
    simpa using h e he
  rw [held, hnone]
  rfl

theorem held_cons_of_le {initial : β} {e : ℕ × β} {k : ℕ} (h : e.1 ≤ k)
    (rest : List (ℕ × β)) : held initial (e :: rest) k = held e.2 rest k := by
  rw [held, List.filter_cons_of_pos (by simpa using h), getD_getLast?_cons, held]

/-- What is held is the value of an event as soon as there is one. -/
theorem some_held {initial : β} {events : List (ℕ × β)} {k : ℕ} (h : ∃ e ∈ events, e.1 ≤ k) :
    some (held initial events k)
      = (events.filter (fun e => e.1 ≤ k)).getLast?.map Prod.snd := by
  obtain ⟨e, he, hle⟩ := h
  have hmem : e ∈ events.filter (fun e => e.1 ≤ k) :=
    List.mem_filter.2 ⟨he, decide_eq_true hle⟩
  rw [held, List.getLast?_eq_some_getLast (List.ne_nil_of_mem hmem)]
  rfl

theorem lastPlace_cons (place : ℕ) (e : ℕ × β) (rest : List (ℕ × β)) :
    lastPlace place (e :: rest) = lastPlace e.1 rest := by
  rw [lastPlace, getD_getLast?_cons, lastPlace]

theorem le_lastPlace {place : ℕ} {events : List (ℕ × β)} (h : ∀ e ∈ events, place ≤ e.1) :
    place ≤ lastPlace place events := by
  rw [lastPlace]
  rcases hlast : events.getLast? with _ | last
  · exact le_rfl
  · exact h last (List.mem_of_getLast? hlast)

/-- The loop tells the value held at each place up to that of the last event, one after another. -/
theorem carry_eq {place : ℕ} {last : β} {events : List (ℕ × β)} (hfrom : ∀ e ∈ events, place ≤ e.1)
    (hordered : events.Pairwise (fun e e' => e.1 ≤ e'.1)) :
    carry place last events
      = (List.range' place (lastPlace place events + 1 - place)).map
          (fun k => (k, held last events k)) := by
  induction events generalizing place last with
  | nil =>
      have hlen : lastPlace place ([] : List (ℕ × β)) + 1 - place = 1 :=
        Nat.add_sub_cancel_left place 1
      rw [hlen]
      rfl
  | cons e rest ih =>
      obtain ⟨hlater, hrest⟩ := List.pairwise_cons.1 hordered
      have hplace : place + (e.1 - place) = e.1 := Nat.add_sub_of_le (hfrom e List.mem_cons_self)
      have hend : e.1 ≤ lastPlace e.1 rest := le_lastPlace hlater
      -- up to the event the value carried so far is held, from it on that of the event
      have hbefore : (List.range' place (e.1 - place)).map (fun k => (k, last))
          = (List.range' place (e.1 - place)).map (fun k => (k, held last (e :: rest) k)) := by
        refine List.map_congr_left (fun k hk => ?_)
        have hlt : k < e.1 := by
          rw [← hplace]
          exact (List.mem_range'_1.1 hk).2
        rw [held_of_later]
        intro e' he'
        rcases List.mem_cons.1 he' with rfl | hin
        · exact hlt
        · exact hlt.trans_le (hlater e' hin)
      have hafter : (List.range' e.1 (lastPlace e.1 rest + 1 - e.1)).map
            (fun k => (k, held e.2 rest k))
          = (List.range' e.1 (lastPlace e.1 rest + 1 - e.1)).map
            (fun k => (k, held last (e :: rest) k)) := by
        refine List.map_congr_left (fun k hk => ?_)
        rw [held_cons_of_le (List.mem_range'_1.1 hk).1]
      have hrange : List.range' place (e.1 - place)
            ++ List.range' e.1 (lastPlace e.1 rest + 1 - e.1)
          = List.range' place (lastPlace e.1 rest + 1 - place) := by
        have happend := @List.range'_append_1 place (e.1 - place) (lastPlace e.1 rest + 1 - e.1)
        rw [hplace] at happend
        rw [happend]
        congr 1
        omega
      rw [carry, hplace, ih hlater hrest, lastPlace_cons, hbefore, hafter, ← List.map_append,
        hrange]

end Grid
