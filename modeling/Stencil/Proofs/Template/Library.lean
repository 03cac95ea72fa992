import Stencil.Template.View

/-!
What a library answers, told from its history. The view of an id is the one registered last since
the id was last removed or the library cleared. Where nothing was registered since then it is the
one that the first `get` compiled, from the text that the source had at that moment. Requests on
other ids play no part in it.
-/

set_option autoImplicit false

namespace Stencil

variable {δ : Dialect}

namespace Library

inductive Request (δ : Dialect) where
  | setSource (source : Text → Option Text)
  | clearSource
  | register (id text : Text)
  | registerView (id : Text) (v : View δ)
  | get (id : Text)
  | contains (id : Text)
  | remove (id : Text)
  | clear

inductive Answer (δ : Dialect) where
  | done
  | registered (v : View δ)
  | found (v : Option (View δ))
  | present (b : Bool)
  | removed (v : Option (View δ))
  | failed (e : CompileError)

def perform (load : Load δ) (l : Library δ) : Request δ → Answer δ × Library δ
  | .setSource source => (.done, { l with source := some source })
  | .clearSource => (.done, { l with source := none })
  | .register id text =>
    match register load l id text with
    | .ok (v, l') => (.registered v, l')
    | .error e => (.failed e, l)
  | .registerView id v => (.registered v, l.insert id v)
  | .get id =>
    match get load l id with
    | .ok (v, l') => (.found v, l')
    | .error e => (.failed e, l)
  | .contains id => (.present (l.contains id), l)
  | .remove id => (.removed (l.remove id).1, (l.remove id).2)
  | .clear => (.done, l.clear)

/-- Whether a request may change the view of an id. -/
def Request.on (id : Text) : Request δ → Bool
  | .register n _ | .registerView n _ | .get n | .remove n => n = id
  | .clear => true
  | .setSource _ | .clearSource | .contains _ => false

structure Turn (δ : Dialect) where
  request : Request δ
  answer : Answer δ

namespace Turn

def drops (id : Text) : Turn δ → Bool
  | ⟨.remove n, _⟩ => n = id
  | ⟨.clear, _⟩ => true
  | _ => false

def registered? (id : Text) : Turn δ → Option (View δ)
  | ⟨.register n _, .registered v⟩ | ⟨.registerView n _, .registered v⟩ =>
    if n = id then some v else none
  | _ => none

def loaded? (id : Text) : Turn δ → Option (View δ)
  | ⟨.get n, .found v⟩ => if n = id then v else none
  | _ => none

theorem eq_of_loaded?_get {id n : Text} {a : Answer δ} {v : View δ}
    (h : loaded? id ⟨.get n, a⟩ = some v) : n = id := by
  cases a with
  | found w => exact (Option.ite_none_right_eq_some.1 h).1
  | _ => cases h

def source? : Turn δ → Option (Option (Text → Option Text))
  | ⟨.setSource source, _⟩ => some (some source)
  | ⟨.clearSource, _⟩ => some none
  | _ => none

end Turn

def since (id : Text) (past : List (Turn δ)) : List (Turn δ) :=
  past.takeWhile fun t => !t.drops id

def lastRegistered? (id : Text) (past : List (Turn δ)) : Option (View δ) :=
  (since id past).findSome? (Turn.registered? id)

def firstLoaded? (id : Text) (past : List (Turn δ)) : Option (View δ) :=
  (since id past).reverse.findSome? (Turn.loaded? id)

def text? (past : List (Turn δ)) (id : Text) : Option Text :=
  (past.findSome? Turn.source?).join.bind fun source => source id

/-- The view that counts for an id. -/
def standing? (id : Text) (past : List (Turn δ)) : Option (View δ) :=
  (lastRegistered? id past).or (firstLoaded? id past)

/-- The library after these requests, the last one first. -/
def after (load : Load δ) : List (Request δ) → Library δ
  | [] => .empty
  | r :: earlier => (perform load (after load earlier) r).2

def history (load : Load δ) : List (Request δ) → List (Turn δ)
  | [] => []
  | r :: earlier => ⟨r, (perform load (after load earlier) r).1⟩ :: history load earlier

/-- This view was compiled for an id by a `get` that found nothing, from the text the source had
then, and the id was not dropped later. -/
def LoadedFrom (load : Load δ) (id : Text) (v : View δ) (past : List (Turn δ)) : Prop :=
  ∃ later earlier serial text, past = later ++ ⟨.get id, .found (some v)⟩ :: earlier ∧
    (∀ t ∈ later, t.drops id = false) ∧ standing? id earlier = none ∧
    text? earlier id = some text ∧ load serial (some (sourceName id)) text = .ok v

/-- The laws of a library whose history is `past`. -/
structure Obeys (load : Load δ) (past : List (Turn δ)) (l : Library δ) : Prop where
  get_registered : ∀ id v, lastRegistered? id past = some v →
    perform load l (.get id) = (.found (some v), l)
  registered_text : ∀ id text v, ⟨.register id text, .registered v⟩ ∈ past →
    ∃ serial, load serial none text = .ok v
  register : ∀ id text, perform load l (.register id text) =
    match load l.next none text with
    | .ok v => (.registered v, { l.insert id v with next := l.next + 1 })
    | .error e => (.failed e, l)
  registerView : ∀ id v, perform load l (.registerView id v) = (.registered v, l.insert id v)
  get_loaded : ∀ id v, lastRegistered? id past = none → firstLoaded? id past = some v →
    perform load l (.get id) = (.found (some v), l) ∧ LoadedFrom load id v past
  get_text : ∀ id text, standing? id past = none → text? past id = some text →
    perform load l (.get id) =
      match load l.next (some (sourceName id)) text with
      | .ok v => (.found (some v), { l.insert id v with next := l.next + 1 })
      | .error e => (.failed e, l)
  get_none : ∀ id, standing? id past = none → text? past id = none →
    perform load l (.get id) = (.found none, l)
  contains : ∀ id, perform load l (.contains id) = (.present (standing? id past).isSome, l)
  remove : ∀ id, (perform load l (.remove id)).1 = .removed (standing? id past)
  failed : ∀ r e, (perform load l r).1 = .failed e → (perform load l r).2 = l
  others : ∀ r id, r.on id = false →
    Dict.find? (perform load l r).2.entries id = Dict.find? l.entries id

theorem compile_eq {α : Type} (l : Library δ) (load : Nat → Except CompileError α) :
    l.compile load = match load l.next with
      | .ok a => .ok (a, { l with next := l.next + 1 })
      | .error e => .error e := by
  rw [compile]
  cases load l.next <;> rfl

theorem perform_register (load : Load δ) (l : Library δ) (id text : Text) :
    perform load l (.register id text) =
      match load l.next none text with
      | .ok v => (.registered v, { l.insert id v with next := l.next + 1 })
      | .error e => (.failed e, l) := by
  simp only [perform, register, compile_eq]
  cases load l.next none text <;> rfl

theorem perform_get_some (load : Load δ) {l : Library δ} {id : Text} {v : View δ}
    (h : Dict.find? l.entries id = some v) :
    perform load l (.get id) = (.found (some v), l) := by
  simp only [perform, get, h]

theorem perform_get_none (load : Load δ) {l : Library δ} {id : Text}
    (h : Dict.find? l.entries id = none) (hs : l.source.bind (fun source => source id) = none) :
    perform load l (.get id) = (.found none, l) := by
  simp only [perform, get, h, hs]

theorem perform_get_text (load : Load δ) {l : Library δ} {id text : Text}
    (h : Dict.find? l.entries id = none)
    (hs : l.source.bind (fun source => source id) = some text) :
    perform load l (.get id) =
      match load l.next (some (sourceName id)) text with
      | .ok v => (.found (some v), { l.insert id v with next := l.next + 1 })
      | .error e => (.failed e, l) := by
  simp only [perform, get, h, hs, compile_eq]
  cases load l.next (some (sourceName id)) text <;> rfl

theorem perform_failed (load : Load δ) (l : Library δ) (r : Request δ) (e : CompileError)
    (h : (perform load l r).1 = .failed e) : (perform load l r).2 = l := by
  cases r with
  | register id text =>
    rw [perform_register] at h ⊢
    split at h
    · cases h
    · rfl
  | get id =>
    rw [perform] at h ⊢
    split at h
    · cases h
    · rfl
  | setSource source => cases h
  | clearSource => cases h
  | registerView id v => cases h
  | contains id => cases h
  | remove id => cases h
  | clear => cases h

theorem source_perform (load : Load δ) (l : Library δ) (r : Request δ) :
    (perform load l r).2.source =
      (Turn.source? ⟨r, (perform load l r).1⟩).getD l.source := by
  cases r with
  | register id text =>
    rw [perform_register]
    cases load l.next none text <;> rfl
  | get id =>
    cases hv : Dict.find? l.entries id with
    | some v =>
      rw [perform_get_some load hv]
      rfl
    | none =>
      cases hs : l.source.bind (fun source => source id) with
      | none =>
        rw [perform_get_none load hv hs]
        rfl
      | some text =>
        rw [perform_get_text load hv hs]
        cases load l.next (some (sourceName id)) text <;> rfl
  | setSource source => rfl
  | clearSource => rfl
  | registerView id v => rfl
  | contains id => rfl
  | remove id => rfl
  | clear => rfl

theorem nodup_perform (load : Load δ) {l : Library δ} (h : l.entries.names.Nodup)
    (r : Request δ) : (perform load l r).2.entries.names.Nodup := by
  cases r with
  | register id text =>
    rw [perform_register]
    cases load l.next none text with
    | ok v => exact Dict.nodup_names_insert h id v
    | error e => exact h
  | get id =>
    cases hv : Dict.find? l.entries id with
    | some v => rwa [perform_get_some load hv]
    | none =>
      cases hs : l.source.bind (fun source => source id) with
      | none => rwa [perform_get_none load hv hs]
      | some text =>
        rw [perform_get_text load hv hs]
        cases load l.next (some (sourceName id)) text with
        | ok v => exact Dict.nodup_names_insert h id v
        | error e => exact h
  | registerView id v => exact Dict.nodup_names_insert h id v
  | remove id =>
    have herase := (h.erase id)
    rwa [← Dict.names_erase] at herase
  | clear => exact List.nodup_nil
  | setSource source => exact h
  | clearSource => exact h
  | contains id => exact h

theorem find?_perform (load : Load δ) {l : Library δ} (h : l.entries.names.Nodup)
    (r : Request δ) (id : Text) :
    Dict.find? (perform load l r).2.entries id =
      let t : Turn δ := ⟨r, (perform load l r).1⟩
      if t.drops id then none
      else (t.registered? id).or ((Dict.find? l.entries id).or (t.loaded? id)) := by
  cases r with
  | register n text =>
    rw [perform_register]
    cases load l.next none text with
    | ok v =>
      by_cases hn : id = n
      · simp [insert, Turn.drops, Turn.registered?, hn]
      · simp [insert, Turn.drops, Turn.registered?, Turn.loaded?, Dict.find?_insert_of_ne _ _ hn,
          Ne.symm hn]
    | error e => simp [Turn.drops, Turn.registered?, Turn.loaded?]
  | registerView n v =>
    by_cases hn : id = n
    · simp [perform, insert, Turn.drops, Turn.registered?, hn]
    · simp [perform, insert, Turn.drops, Turn.registered?, Turn.loaded?,
        Dict.find?_insert_of_ne _ _ hn, Ne.symm hn]
  | get n =>
    cases hv : Dict.find? l.entries n with
    | some v =>
      rw [perform_get_some load hv]
      by_cases hn : n = id
      · simp [Turn.drops, Turn.registered?, ← hn, hv]
      · simp [Turn.drops, Turn.registered?, Turn.loaded?, hn]
    | none =>
      cases hs : l.source.bind (fun source => source n) with
      | none =>
        rw [perform_get_none load hv hs]
        simp [Turn.drops, Turn.registered?, Turn.loaded?]
      | some text =>
        rw [perform_get_text load hv hs]
        cases load l.next (some (sourceName n)) text with
        | ok v =>
          by_cases hn : id = n
          · simp [insert, Turn.drops, Turn.registered?, Turn.loaded?, hn, hv]
          · simp [insert, Turn.drops, Turn.registered?, Turn.loaded?,
              Dict.find?_insert_of_ne _ _ hn, Ne.symm hn]
        | error e => simp [Turn.drops, Turn.registered?, Turn.loaded?]
  | remove n =>
    by_cases hn : id = n
    · simp [perform, remove, Turn.drops, Dict.find?_erase h, hn]
    · simp [perform, remove, Turn.drops, Turn.registered?, Turn.loaded?, Dict.find?_erase h, hn,
        Ne.symm hn]
  | clear => simp [perform, clear, Turn.drops]
  | setSource source => simp [perform, Turn.drops, Turn.registered?, Turn.loaded?]
  | clearSource => simp [perform, Turn.drops, Turn.registered?, Turn.loaded?]
  | contains n => simp [perform, Turn.drops, Turn.registered?, Turn.loaded?]

theorem Turn.of_not_on {id : Text} {r : Request δ} (h : r.on id = false) (answer : Answer δ) :
    Turn.drops id ⟨r, answer⟩ = false ∧ Turn.registered? id ⟨r, answer⟩ = none ∧
      Turn.loaded? id ⟨r, answer⟩ = none := by
  cases r with
  | register n | registerView n | get n =>
    have hn : n ≠ id := of_decide_eq_false h
    cases answer <;> simp [Turn.drops, Turn.registered?, Turn.loaded?, hn]
  | remove n => exact ⟨h, rfl, rfl⟩
  | clear => cases h
  | setSource | clearSource | contains => exact ⟨rfl, rfl, rfl⟩

theorem find?_perform_of_not_on (load : Load δ) {l : Library δ} (h : l.entries.names.Nodup)
    (r : Request δ) (id : Text) (hr : r.on id = false) :
    Dict.find? (perform load l r).2.entries id = Dict.find? l.entries id := by
  obtain ⟨hdrops, hregistered, hloaded⟩ := Turn.of_not_on hr (perform load l r).1
  rw [find?_perform load h r id]
  simp only [hdrops, hregistered, hloaded, Option.none_or, Option.or_none, Bool.false_eq_true,
    if_false]

theorem since_cons (id : Text) (t : Turn δ) (past : List (Turn δ)) :
    since id (t :: past) = if t.drops id then [] else t :: since id past := by
  cases h : t.drops id <;> simp [since, h]

theorem lastRegistered?_cons (id : Text) (t : Turn δ) (past : List (Turn δ)) :
    lastRegistered? id (t :: past) =
      if t.drops id then none else (t.registered? id).or (lastRegistered? id past) := by
  rw [lastRegistered?, since_cons]
  split
  · rfl
  · rw [List.findSome?_cons]
    cases t.registered? id <;> rfl

theorem firstLoaded?_cons (id : Text) (t : Turn δ) (past : List (Turn δ)) :
    firstLoaded? id (t :: past) =
      if t.drops id then none else (firstLoaded? id past).or (t.loaded? id) := by
  rw [firstLoaded?, since_cons]
  split
  · rfl
  · rw [List.reverse_cons, List.findSome?_append, firstLoaded?, List.findSome?_singleton]

theorem standing?_cons (id : Text) (t : Turn δ) (past : List (Turn δ)) :
    standing? id (t :: past) =
      if t.drops id then none
      else (t.registered? id).or ((standing? id past).or (t.loaded? id)) := by
  rw [standing?, lastRegistered?_cons, firstLoaded?_cons, standing?]
  split
  · rfl
  · rw [Option.or_assoc, Option.or_assoc]

theorem LoadedFrom.cons {load : Load δ} {id : Text} {v : View δ} {past : List (Turn δ)}
    (h : LoadedFrom load id v past) {t : Turn δ} (ht : t.drops id = false) :
    LoadedFrom load id v (t :: past) := by
  obtain ⟨later, earlier, serial, text, rfl, hlater, hrest⟩ := h
  exact ⟨t :: later, earlier, serial, text, rfl, List.forall_mem_cons.2 ⟨ht, hlater⟩, hrest⟩

structure Tracks (load : Load δ) (past : List (Turn δ)) (l : Library δ) : Prop where
  nodup : l.entries.names.Nodup
  entry : ∀ id, Dict.find? l.entries id = standing? id past
  source : l.source = (past.findSome? Turn.source?).join
  registered : ∀ id text v, ⟨.register id text, .registered v⟩ ∈ past →
    ∃ serial, load serial none text = .ok v
  loaded : ∀ id v, lastRegistered? id past = none → firstLoaded? id past = some v →
    LoadedFrom load id v past

namespace Tracks

variable {load : Load δ} {past : List (Turn δ)} {l : Library δ}

theorem text (h : Tracks load past l) (id : Text) :
    l.source.bind (fun source => source id) = text? past id := by
  rw [text?, h.source]

theorem registered_perform {id text : Text} {v : View δ} {r : Request δ}
    (h : (⟨r, (perform load l r).1⟩ : Turn δ) = ⟨.register id text, .registered v⟩) :
    ∃ serial, load serial none text = .ok v := by
  obtain ⟨rfl, ha⟩ := Turn.mk.inj h
  rw [perform_register] at ha
  split at ha
  next w hw => exact ⟨l.next, by rw [hw, (Answer.registered.inj ha)]⟩
  next => cases ha

theorem loaded_perform (h : Tracks load past l) {id : Text} {v : View δ} {r : Request δ}
    (hid : standing? id past = none)
    (hv : Turn.loaded? id ⟨r, (perform load l r).1⟩ = some v) :
    LoadedFrom load id v (⟨r, (perform load l r).1⟩ :: past) := by
  cases r with
  | get n =>
    obtain rfl := Turn.eq_of_loaded?_get hv
    have hnone : Dict.find? l.entries n = none := (h.entry n).trans hid
    cases hs : l.source.bind (fun source => source n) with
    | none =>
      rw [perform_get_none load hnone hs] at hv
      simp [Turn.loaded?] at hv
    | some text =>
      rw [perform_get_text load hnone hs] at hv ⊢
      cases hl : load l.next (some (sourceName n)) text with
      | error e =>
        rw [hl] at hv
        cases hv
      | ok w =>
        rw [hl] at hv
        simp only [Turn.loaded?, if_true, Option.some.injEq] at hv
        subst hv
        exact ⟨[], past, l.next, text, rfl, by simp, hid, (h.text n).symm.trans hs, hl⟩
  | _ => cases hv

theorem perform (h : Tracks load past l) (r : Request δ) :
    Tracks load (⟨r, (perform load l r).1⟩ :: past) (perform load l r).2 where
  nodup := nodup_perform load h.nodup r
  entry id := by
    rw [find?_perform load h.nodup r id, standing?_cons, h.entry id]
  source := by
    rw [source_perform, h.source, List.findSome?_cons]
    cases Turn.source? ⟨r, (Library.perform load l r).1⟩ <;> rfl
  registered id text v hmem := by
    obtain hhead | htail := List.mem_cons.1 hmem
    · exact registered_perform hhead.symm
    · exact h.registered id text v htail
  loaded id v hreg hv := by
    rw [lastRegistered?_cons] at hreg
    rw [firstLoaded?_cons] at hv
    by_cases hdrop : Turn.drops id ⟨r, (Library.perform load l r).1⟩ = true
    · rw [if_pos hdrop] at hv
      cases hv
    · rw [if_neg hdrop] at hreg hv
      have hpast := (Option.or_eq_none_iff.1 hreg).2
      cases hfirst : firstLoaded? id past with
      | some w =>
        rw [hfirst, Option.some_or, Option.some.injEq] at hv
        subst hv
        exact (h.loaded id w hpast hfirst).cons (eq_false_of_ne_true hdrop)
      | none =>
        rw [hfirst, Option.none_or] at hv
        exact h.loaded_perform (by rw [standing?, hpast, hfirst]; rfl) hv

theorem obeys (h : Tracks load past l) : Obeys load past l where
  get_registered id v hv :=
    perform_get_some load ((h.entry id).trans (by rw [standing?, hv]; rfl))
  registered_text := h.registered
  register := perform_register load l
  registerView _ _ := rfl
  get_loaded id v hreg hv :=
    ⟨perform_get_some load ((h.entry id).trans (by rw [standing?, hreg, hv]; rfl)),
      h.loaded id v hreg hv⟩
  get_text id text hid ht :=
    perform_get_text load ((h.entry id).trans hid) ((h.text id).trans ht)
  get_none id hid ht := perform_get_none load ((h.entry id).trans hid) ((h.text id).trans ht)
  contains id := by rw [← h.entry id]; rfl
  remove id := by rw [← h.entry id]; rfl
  failed := perform_failed load l
  others := find?_perform_of_not_on load h.nodup

end Tracks

theorem tracks_after (load : Load δ) (requests : List (Request δ)) :
    Tracks load (history load requests) (after load requests) := by
  induction requests with
  | nil =>
    refine ⟨List.nodup_nil, fun _ => rfl, rfl, fun _ _ _ h => ?_, fun _ _ _ h => ?_⟩
    all_goals cases h
  | cons r earlier ih => exact ih.perform r

/-- After any requests, the last one first, the library obeys the laws of their history. -/
theorem obeys_after (load : Load δ) (requests : List (Request δ)) :
    Obeys load (history load requests) (after load requests) :=
  (tracks_after load requests).obeys

end Library

end Stencil
