import Mathlib.Tactic

/-!
# Address resolution by rounds

Stations send data to addresses. A station that does not know whose an address
is keeps the data for it and asks; the one whose address it is tells. Whoever is
heard to ask or to tell is known from then on, and is sent what was kept for it.
In a round all stations hear what their neighbours have said before. No data is
lost: what a station owes to another, on its way or kept, is what is received in
the round, followed by what it owes after it. If nothing new is sent, three
rounds are enough: one for the question, one for the answer and one for the data.
-/

namespace Sponge.Lib.Resolution

variable {σ α δ : Type*} [DecidableEq σ]

/-- What a station says: it asks whose an address is, tells another one that an address is its
own, or passes data to it. -/
inductive Message (σ α δ : Type*) where
  | ask (x : α)
  | tell (j : σ)
  | data (j : σ) (d : δ)

namespace Message

/-- The sender makes its address known. -/
def Speaks : Message σ α δ → Prop
  | .ask _ | .tell _ => True
  | .data _ _ => False

def dataFor (j : σ) : Message σ α δ → Option δ
  | .ask _ | .tell _ => none
  | .data k d => if k = j then some d else none

end Message

structure Station (σ α δ : Type*) where
  /-- The addresses asked for and not heard of since. -/
  asked : α → Prop := fun _ ↦ False
  /-- What is kept for an address. -/
  queue : α → List δ := fun _ ↦ []
  /-- What the station says in the next round. -/
  out : List (Message σ α δ) := []
  got : List δ := []

/-- The data for `j` in a list of messages. -/
def dataFor (j : σ) (messages : List (Message σ α δ)) : List δ :=
  messages.filterMap (Message.dataFor j)

@[simp] theorem dataFor_nil (j : σ) : dataFor j ([] : List (Message σ α δ)) = [] := rfl

@[simp] theorem dataFor_append (j : σ) (ms ms' : List (Message σ α δ)) :
    dataFor j (ms ++ ms') = dataFor j ms ++ dataFor j ms' :=
  List.filterMap_append

@[simp] theorem dataFor_map_data_self (j : σ) (ds : List δ) :
    dataFor j (ds.map (.data j : δ → Message σ α δ)) = ds := by
  simp [dataFor, List.filterMap_map, Function.comp_def, Message.dataFor]

theorem dataFor_map_data_of_ne {i j : σ} (h : i ≠ j) (ds : List δ) :
    dataFor j (ds.map (.data i : δ → Message σ α δ)) = [] := by
  simp [dataFor, Message.dataFor, h]

namespace Station

variable [DecidableEq α] (address : σ → α)

/-- The address of `i` is known: what was kept for it is sent. -/
def learn (i : σ) (s : Station σ α δ) : Station σ α δ :=
  { s with
    asked := Function.update s.asked (address i) False
    queue := Function.update s.queue (address i) []
    out := s.out ++ (s.queue (address i)).map (.data i) }

/-- The station `j` hears a message of `i`. -/
def hear (j i : σ) (s : Station σ α δ) : Message σ α δ → Station σ α δ
  | .ask x =>
    let s := s.learn address i
    if x = address j then { s with out := s.out ++ [.tell i] } else s
  | .tell _ => s.learn address i
  | .data k d => if k = j then { s with got := s.got ++ [d] } else s

def hearAll (j : σ) (s : Station σ α δ) (heard : List (σ × Message σ α δ)) : Station σ α δ :=
  heard.foldl (fun s m ↦ s.hear address j m.1 m.2) s

/-- What a station owes to `j`: what it says next and what it keeps. -/
def due (s : Station σ α δ) (j : σ) : List δ := dataFor j s.out ++ s.queue (address j)

/-- What is kept is kept for an address that was asked for. -/
def Waits (s : Station σ α δ) : Prop := ∀ x, s.queue x ≠ [] → s.asked x

variable {address} {s : Station σ α δ} {i j k : σ} {m n : Message σ α δ} {x : α}

theorem due_learn (hinj : Function.Injective address) :
    (s.learn address i).due address k = s.due address k := by
  simp only [due, learn, dataFor_append]
  by_cases hik : i = k
  · subst hik
    simp
  · rw [dataFor_map_data_of_ne hik, Function.update_of_ne (hinj.ne (Ne.symm hik)),
      List.append_nil]

/-- Hearing a message changes no debt. -/
theorem due_hear (hinj : Function.Injective address) :
    (s.hear address j i m).due address k = s.due address k := by
  cases m with
  | ask x =>
      rw [hear]
      split_ifs
      · refine Eq.trans ?_ (due_learn hinj (i := i))
        simp [due, dataFor, Message.dataFor]
      · exact due_learn hinj
  | tell _ => exact due_learn hinj
  | data _ d =>
      rw [hear]
      split_ifs <;> rfl

theorem got_hear : (s.hear address j i m).got = s.got ++ (m.dataFor j).toList := by
  cases m with
  | ask x =>
      rw [hear, Message.dataFor]
      split_ifs <;> simp [learn]
  | tell _ => simp [hear, Message.dataFor, learn]
  | data _ d =>
      rw [hear, Message.dataFor]
      split_ifs <;> simp

theorem asked_hear :
    (s.hear address j i m).asked x ↔ s.asked x ∧ ¬(m.Speaks ∧ address i = x) := by
  have hlearn : (s.learn address i).asked x ↔ s.asked x ∧ address i ≠ x := by
    simp only [learn, Function.update_apply]
    by_cases hx : x = address i
    · simp [hx]
    · simp [hx, Ne.symm hx]
  cases m with
  | ask x =>
      rw [hear, Message.Speaks, true_and]
      split_ifs <;> exact hlearn
  | tell _ => simpa [hear, Message.Speaks] using hlearn
  | data _ d =>
      rw [hear]
      split_ifs <;> simp [Message.Speaks]

omit [DecidableEq σ] in
theorem Waits.learn (h : s.Waits) (i : σ) : (s.learn address i).Waits := by
  intro x hx
  simp only [Station.learn, Function.update_apply] at hx ⊢
  split_ifs at hx ⊢ with heq
  · exact absurd rfl hx
  · exact h x hx

theorem Waits.hear (h : s.Waits) : (s.hear address j i m).Waits := by
  cases m with
  | ask x =>
      rw [Station.hear]
      split_ifs <;> exact h.learn i
  | tell _ => exact h.learn i
  | data _ d =>
      rw [Station.hear]
      split_ifs <;> exact h

/-- Whoever hears something says nothing but data and answers to questions. -/
theorem mem_out_hear : m ∈ (s.hear address j i n).out ↔
    m ∈ s.out ∨ (n.Speaks ∧ ∃ d ∈ s.queue (address i), m = .data i d) ∨
      n = .ask (address j) ∧ m = .tell i := by
  cases n with
  | ask x =>
      rw [hear, Message.Speaks]
      split_ifs with hx
      · subst hx
        simp [learn, eq_comm]
      · simp [learn, eq_comm, hx]
  | tell _ => simp [hear, learn, Message.Speaks, eq_comm]
  | data _ d =>
      rw [hear]
      split_ifs <;> simp [Message.Speaks]

/-- What is owed to anyone, and what the station `j` got, has a property. -/
structure Holds (address : σ → α) (P : σ → δ → Prop) (j : σ) (s : Station σ α δ) : Prop where
  due : ∀ k, ∀ d ∈ s.due address k, P k d
  got : ∀ d ∈ s.got, P j d

theorem Holds.hear {P : σ → δ → Prop} (hinj : Function.Injective address)
    (h : s.Holds address P j) (hm : ∀ k d, m = .data k d → P k d) :
    (s.hear address j i m).Holds address P j := by
  refine ⟨fun k d hd ↦ h.due k d (due_hear hinj ▸ hd), fun d hd ↦ ?_⟩
  rw [got_hear] at hd
  rcases List.mem_append.mp hd with hd | hd
  · exact h.got d hd
  · cases m with
    | ask x => simp [Message.dataFor] at hd
    | tell k => simp [Message.dataFor] at hd
    | data k e =>
        rw [Message.dataFor] at hd
        split_ifs at hd with hk
        · have heq : d = e := by simpa using hd
          exact heq ▸ hm _ _ (hk ▸ rfl)
        · simp at hd

section hearAll

variable {heard : List (σ × Message σ α δ)}

theorem due_hearAll (hinj : Function.Injective address) :
    (s.hearAll address j heard).due address k = s.due address k := by
  induction heard generalizing s with
  | nil => rfl
  | cons m rest ih => exact ih.trans (due_hear hinj)

theorem got_hearAll :
    (s.hearAll address j heard).got = s.got ++ dataFor j (heard.map Prod.snd) := by
  induction heard generalizing s with
  | nil => simp [hearAll]
  | cons m rest ih =>
      refine ih.trans ?_
      rw [got_hear, List.append_assoc]
      cases hm : m.2.dataFor j <;> simp [dataFor, hm]

theorem asked_hearAll : (s.hearAll address j heard).asked x ↔
    s.asked x ∧ ∀ m ∈ heard, m.2.Speaks → address m.1 ≠ x := by
  induction heard generalizing s with
  | nil => simp [hearAll]
  | cons m rest ih =>
      refine ih.trans ?_
      rw [asked_hear, List.forall_mem_cons, not_and, and_assoc]

theorem Waits.hearAll (h : s.Waits) : (s.hearAll address j heard).Waits := by
  induction heard generalizing s with
  | nil => exact h
  | cons m rest ih => exact ih h.hear

theorem hearAll_append (heard heard' : List (σ × Message σ α δ)) :
    s.hearAll address j (heard ++ heard') =
      (s.hearAll address j heard).hearAll address j heard' :=
  List.foldl_append

/-- What was said before stays in front of what is said now. -/
theorem hearAll_out_nil (s : Station σ α δ) (heard : List (σ × Message σ α δ)) :
    { s with out := [] }.hearAll address j heard =
      { s.hearAll address j heard with
        out := (s.hearAll address j heard).out.drop s.out.length } := by
  have hear_out : ∀ (said : List (Message σ α δ)) (s : Station σ α δ) (m : σ × Message σ α δ),
      { s with out := said ++ s.out }.hear address j m.1 m.2 =
        { s.hear address j m.1 m.2 with out := said ++ (s.hear address j m.1 m.2).out } := by
    rintro said s ⟨i, m⟩
    cases m with
    | ask x =>
        simp only [hear]
        split_ifs <;> simp [learn]
    | tell k => simp [hear, learn]
    | data k d =>
        simp only [hear]
        split_ifs <;> rfl
  have hall : ∀ (said : List (Message σ α δ)) (s : Station σ α δ),
      { s with out := said ++ s.out }.hearAll address j heard =
        { s.hearAll address j heard with
          out := said ++ (s.hearAll address j heard).out } := by
    intro said
    induction heard with
    | nil => exact fun _ ↦ rfl
    | cons m rest ih =>
        intro s
        have hstep := ih (s.hear address j m.1 m.2)
        rw [← hear_out] at hstep
        exact hstep
  have hs := hall s.out { s with out := [] }
  rw [List.append_nil] at hs
  rw [hs]
  simp

/-- Questions are answered. -/
theorem tell_mem_out_hearAll (h : (i, .ask (address j)) ∈ heard) :
    .tell i ∈ (s.hearAll address j heard).out := by
  have hkeep : ∀ (rest : List (σ × Message σ α δ)) (s : Station σ α δ), .tell i ∈ s.out →
      .tell i ∈ (s.hearAll address j rest).out := by
    intro rest
    induction rest with
    | nil => exact fun _ ↦ id
    | cons m rest ih => exact fun s hs ↦ ih _ (mem_out_hear.mpr (Or.inl hs))
  induction heard generalizing s with
  | nil => simp at h
  | cons m rest ih =>
      rcases List.mem_cons.mp h with rfl | hrest
      · exact hkeep rest _ (mem_out_hear.mpr (Or.inr (Or.inr ⟨rfl, rfl⟩)))
      · exact ih hrest

end hearAll

/-- What sending data to addresses does to a station: its debts grow by what is sent, and an
address that was not asked for before is asked for now. -/
structure Accepts (address : σ → α) (s : Station σ α δ) (sent : List (α × δ))
    (s' : Station σ α δ) : Prop where
  due : ∀ j, s'.due address j =
    s.due address j ++ (sent.filter (·.1 = address j)).map Prod.snd
  asked : ∀ x, s'.asked x → s.asked x ∨ (∃ m ∈ sent, m.1 = x) ∧ .ask x ∈ s'.out
  out : s.out ⊆ s'.out
  waits : s.Waits → s'.Waits
  got : s'.got = s.got

/-- Data is sent to `j`. -/
def pass (j : σ) (d : δ) (s : Station σ α δ) : Station σ α δ :=
  { s with out := s.out ++ [.data j d] }

/-- Data is kept for `x`. -/
def keep (x : α) (d : δ) (s : Station σ α δ) : Station σ α δ :=
  { s with queue := Function.update s.queue x (s.queue x ++ [d]) }

/-- The address `x` is asked for. -/
def askFor (x : α) (s : Station σ α δ) : Station σ α δ :=
  { s with asked := Function.update s.asked x True, out := s.out ++ [.ask x] }

namespace Accepts

variable {d : δ}

theorem pass (hinj : Function.Injective address) (h : s.queue (address j) = []) (d : δ) :
    Accepts address s [(address j, d)] (s.pass j d) where
  due k := by
    by_cases hk : j = k
    · subst hk
      simp [Station.due, Station.pass, h, dataFor, Message.dataFor]
    · simp [Station.due, Station.pass, dataFor, Message.dataFor, hk, hinj.eq_iff]
  asked _ := Or.inl
  out := List.subset_append_left _ _
  waits := id
  got := rfl

theorem due_keep (address : σ → α) (s : Station σ α δ) (x : α) (d : δ) (k : σ) :
    (s.keep x d).due address k =
      s.due address k ++ ([(x, d)].filter (·.1 = address k)).map Prod.snd := by
  by_cases hk : x = address k
  · simp [Station.due, Station.keep, hk]
  · simp [Station.due, Station.keep, hk, Function.update_of_ne (Ne.symm hk)]

theorem keep (address : σ → α) (h : s.asked x) (d : δ) :
    Accepts address s [(x, d)] (s.keep x d) where
  due := due_keep address s x d
  asked _ := Or.inl
  out := List.Subset.refl _
  waits hs y hy := by
    by_cases hyx : y = x
    · exact hyx ▸ h
    · exact hs y (by simpa [Station.keep, hyx] using hy)
  got := rfl

theorem keep_askFor (address : σ → α) (s : Station σ α δ) (x : α) (d : δ) :
    Accepts address s [(x, d)] ((s.keep x d).askFor x) where
  due k := by
    rw [← due_keep]
    simp [Station.due, Station.askFor, dataFor, Message.dataFor]
  asked y hy := by
    by_cases hyx : y = x
    · exact Or.inr ⟨⟨_, List.mem_singleton_self _, hyx.symm⟩, by simp [Station.askFor, hyx]⟩
    · exact Or.inl (by simpa [Station.askFor, Station.keep, hyx] using hy)
  out := List.subset_append_left _ _
  waits hs y hy := by
    by_cases hyx : y = x
    · simp [Station.askFor, hyx]
    · simpa [Station.askFor, Station.keep, hyx] using
        hs y (by simpa [Station.askFor, Station.keep, hyx] using hy)
  got := rfl

theorem holds {s' : Station σ α δ} {sent : List (α × δ)} {P : σ → δ → Prop}
    (h : Accepts address s sent s') (hs : s.Holds address P i)
    (hsent : ∀ k, ∀ m ∈ sent, m.1 = address k → P k m.2) : s'.Holds address P i := by
  refine ⟨fun k d hd ↦ ?_, h.got ▸ hs.got⟩
  rw [h.due] at hd
  rcases List.mem_append.mp hd with hd | hd
  · exact hs.due k d hd
  · obtain ⟨m, hm, rfl⟩ := List.mem_map.mp hd
    obtain ⟨hmem, hk⟩ := List.mem_filter.mp hm
    exact hsent k m hmem (of_decide_eq_true hk)

theorem refl (address : σ → α) (s : Station σ α δ) : Accepts address s [] s :=
  ⟨fun _ ↦ (List.append_nil _).symm, fun _ ↦ Or.inl, fun _ ↦ id, id, rfl⟩

theorem withGot {s' : Station σ α δ} {sent : List (α × δ)} (h : Accepts address s sent s')
    (got : List δ) : Accepts address { s with got := got } sent { s' with got := got } :=
  ⟨h.due, h.asked, h.out, h.waits, rfl⟩

theorem trans {s₁ s₂ s₃ : Station σ α δ} {sent sent' : List (α × δ)}
    (h : Accepts address s₁ sent s₂) (h' : Accepts address s₂ sent' s₃) :
    Accepts address s₁ (sent ++ sent') s₃ where
  due j := by rw [h'.due, h.due, List.filter_append, List.map_append, List.append_assoc]
  asked x hx := by
    rcases h'.asked x hx with hx | ⟨⟨m, hm, hmx⟩, hask⟩
    · rcases h.asked x hx with hx | ⟨⟨m, hm, hmx⟩, hask⟩
      · exact Or.inl hx
      · exact Or.inr ⟨⟨m, List.mem_append_left _ hm, hmx⟩, h'.out hask⟩
    · exact Or.inr ⟨⟨m, List.mem_append_right _ hm, hmx⟩, hask⟩
  out := List.Subset.trans h.out h'.out
  waits := h'.waits ∘ h.waits
  got := h'.got.trans h.got

end Accepts

end Station

/-- Stations with different addresses, and who hears whom. -/
structure Wiring (σ α : Type*) where
  address : σ → α
  injective : Function.Injective address
  neighbours : σ → List σ
  symm : ∀ {i j}, i ∈ neighbours j → j ∈ neighbours i

namespace Wiring

variable [DecidableEq α] (T : Wiring σ α)

/-- What the neighbours of `j` say, each with who says it. -/
def heardBy (S : σ → Station σ α δ) (j : σ) : List (σ × Message σ α δ) :=
  (T.neighbours j).flatMap fun i ↦ (S i).out.map (i, ·)

/-- Everyone who has neighbours hears what they said before. -/
def exchange (S : σ → Station σ α δ) (j : σ) : Station σ α δ :=
  if T.neighbours j = [] then S j
  else { S j with out := [] }.hearAll T.address j (T.heardBy S j)

/-- How far the debts of `i` to `j` are settled. -/
def Settled (S : σ → Station σ α δ) (i j : σ) : ℕ → Prop
  | 0 => (S i).asked (T.address j) →
    .ask (T.address j) ∈ (S i).out ∨ ∃ m ∈ (S j).out, m.Speaks
  | 1 => (S i).asked (T.address j) → ∃ m ∈ (S j).out, m.Speaks
  | 2 => ¬(S i).asked (T.address j)
  | _ => ¬(S i).asked (T.address j) ∧ (S i).due T.address j = []

variable {T} {S : σ → Station σ α δ} {i j : σ} {x : α}

theorem exchange_of_mem (h : i ∈ T.neighbours j) :
    T.exchange S j = { S j with out := [] }.hearAll T.address j (T.heardBy S j) :=
  if_neg (List.ne_nil_of_mem h)

omit [DecidableEq σ] [DecidableEq α] in
theorem mem_heardBy (h : i ∈ T.neighbours j) {m : Message σ α δ} (hm : m ∈ (S i).out) :
    (i, m) ∈ T.heardBy S j :=
  List.mem_flatMap.mpr ⟨i, h, List.mem_map_of_mem hm⟩

/-- What is owed to a neighbour is received, followed by what is owed after the round. -/
theorem due_exchange (h : i ∈ T.neighbours j) : (S i).due T.address j =
    dataFor j (S i).out ++ (T.exchange S i).due T.address j := by
  rw [exchange_of_mem (T.symm h), Station.due_hearAll T.injective]
  simp [Station.due]

theorem got_exchange (S : σ → Station σ α δ) (j : σ) : (T.exchange S j).got =
    (S j).got ++ (T.neighbours j).flatMap fun i ↦ dataFor j (S i).out := by
  rw [exchange]
  split_ifs with hnone
  · simp [hnone]
  · rw [Station.got_hearAll, heardBy, List.map_flatMap, dataFor, List.filterMap_flatMap]
    simp only [List.map_map, Function.comp_def, List.map_id', dataFor]

theorem asked_of_exchange (h : (T.exchange S j).asked x) : (S j).asked x := by
  rw [exchange] at h
  split_ifs at h
  · exact h
  · exact (Station.asked_hearAll.mp h).1

theorem waits_exchange (h : (S j).Waits) : (T.exchange S j).Waits := by
  rw [exchange]
  split_ifs
  · exact h
  · exact Station.Waits.hearAll h

theorem settled_exchange (hwaits : (S i).Waits) (h : i ∈ T.neighbours j) {n : ℕ}
    (hn : T.Settled S i j n) : T.Settled (T.exchange S) i j (n + 1) := by
  have hheard : (∃ m ∈ (S j).out, m.Speaks) → ¬(T.exchange S i).asked (T.address j) := by
    rintro ⟨m, hm, hspeaks⟩ hasked
    rw [exchange_of_mem (T.symm h), Station.asked_hearAll] at hasked
    exact hasked.2 _ (mem_heardBy (T.symm h) hm) hspeaks rfl
  have hdue := due_exchange (S := S) h
  rcases n with _ | _ | _ | n
  · -- the question is answered, unless `j` has made itself known already
    intro hasked
    rcases hn (asked_of_exchange hasked) with hask | hspeaks
    · refine ⟨.tell i, ?_, trivial⟩
      rw [exchange_of_mem h]
      exact Station.tell_mem_out_hearAll (mem_heardBy h hask)
    · exact absurd hasked (hheard hspeaks)
  · exact fun hasked ↦ hheard (hn (asked_of_exchange hasked)) hasked
  · refine ⟨fun hasked ↦ hn (asked_of_exchange hasked), ?_⟩
    have hempty : (S i).queue (T.address j) = [] := by
      by_contra hne
      exact hn (hwaits _ hne)
    rwa [Station.due, hempty, List.append_nil, List.self_eq_append_right] at hdue
  · refine ⟨fun hasked ↦ hn.1 (asked_of_exchange hasked), ?_⟩
    rw [hn.2] at hdue
    exact (List.append_eq_nil_iff.mp hdue.symm).2

omit [DecidableEq α] in
/-- Whoever asks for a new address says so. -/
theorem attended_of_asked {S' : σ → Station σ α δ}
    (hasked : ∀ x, (S' i).asked x → (S i).asked x ∨ .ask x ∈ (S' i).out)
    (hi : (S i).out ⊆ (S' i).out) (hj : (S j).out ⊆ (S' j).out) (h : T.Settled S i j 0) :
    T.Settled S' i j 0 := by
  intro hx
  rcases hasked _ hx with hx | hask
  · rcases h hx with hask | ⟨m, hm, hspeaks⟩
    · exact Or.inl (hi hask)
    · exact Or.inr ⟨m, hj hm, hspeaks⟩
  · exact Or.inl hask

end Wiring
end Sponge.Lib.Resolution
