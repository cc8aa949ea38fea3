import Mathlib
import JsonPath.Evaluation.Lemmas

/-! Chains of tokens as a relation between the places that they pass, and the place that they reach. -/
namespace JsonPath

namespace Collection

/-- The place that a position means in a list, which may lie outside it. -/
def effective (position : Int) (length : Nat) : Int :=
  if 0 ≤ position then position else length + position

theorem place?_eq_some_iff {position : Int} {length place : Nat} :
    place? position length = some place ↔ (place : Int) = effective position length := by
  unfold place? effective
  by_cases h : 0 ≤ position
  · simp only [h, if_true, Option.some.injEq]
    omega
  · by_cases hl : position.natAbs ≤ length <;>
      simp only [h, hl, if_true, if_false, Option.some.injEq, reduceCtorEq, false_iff] <;> omega

theorem pick?_eq_some_iff {position : Int} {es : List Json} {place : Nat} {v : Json} :
    pick? position es = some (place, v) ↔
      (place : Int) = effective position es.length ∧ es[place]? = some v := by
  simp only [pick?, Option.bind_eq_bind, Option.pure_def, Option.bind_eq_some_iff,
    place?_eq_some_iff, Option.some.injEq, Prod.mk.injEq]
  constructor
  · intro h
    obtain ⟨i, hi, w, hw, rfl, rfl⟩ := h
    exact ⟨hi, hw⟩
  · intro h
    obtain ⟨hi, hv⟩ := h
    exact ⟨place, hi, v, hv, rfl, rfl⟩

end Collection

def Segment.isCall : Segment → Bool
  | call .. => true
  | _ => false

namespace Token

def isCall : Token → Bool
  | call .. => true
  | _ => false

/-- The place to which a token leads. -/
inductive Leads (r : Resolver) (e : Environment) : Cursor → Token → Cursor → Prop where
  | root (c : Cursor) (symbol : Char) :
    Leads r e c (.root symbol) ⟨symbol.toString, .root, c.value⟩
  | property {c : Cursor} {name : String} {v : Json} (hv : c.value.member? name = some v) :
    Leads r e c (.property name) ⟨c.path ++ Path.propertyText name, .property name, v⟩
  | index {c : Cursor} {i : Int64} {place : Nat} {v : Json}
      (hp : (place : Int) = Collection.effective i.toInt c.value.elements.length)
      (hv : c.value.element? place = some v) :
    Leads r e c (.index i) ⟨c.path ++ Path.indexText place, .element place, v⟩
  | call {c : Cursor} {name : String} {bare : Bool} {ps : List Parameter} {v : Json}
      (hv : invoke r e name c.path ps c.value = .ok v) :
    Leads r e c (.call name bare ps) ⟨c.path, c.parent, v⟩

variable {r : Resolver} {e : Environment} {c d : Cursor} {t : Token} {ts us : List Token}
  {cs : List Cursor}

theorem Leads.step (h : Leads r e c t d) : t.step r e c = .ok d := by
  obtain ⟨path, parent, value⟩ := c
  cases h with
  | root => rfl
  | property hv =>
    cases value <;> simp_all [Token.step, Json.member?, Json.members, Dictionary.lookup?]
  | index hp hv =>
    cases value with
    | array es =>
      have hpick := Collection.pick?_eq_some_iff.mpr ⟨hp, hv⟩
      simp only [Token.step]
      simp only [Json.elements] at hpick
      rw [hpick]
    | _ => simp [Json.element?, Json.elements] at hv
  | call hv => simp only [Token.step, hv]; rfl

theorem leads_of_step (h : t.step r e c = .ok d) : Leads r e c t d := by
  obtain ⟨path, parent, value⟩ := c
  cases t with
  | root symbol => cases h; exact .root ..
  | property name =>
    cases value with
    | object ms =>
      simp only [Token.step] at h
      split at h
      next v hv => cases h; exact .property hv
      next => cases h
    | _ => cases h
  | index i =>
    cases value with
    | array es =>
      simp only [Token.step] at h
      split at h
      next place v hpick =>
        obtain ⟨hp, hv⟩ := Collection.pick?_eq_some_iff.mp hpick
        cases h
        exact .index hp hv
      next => cases h
    | _ => cases h
  | call name bare ps =>
    simp only [Token.step] at h
    cases hv : invoke r e name path ps value with
    | error err => rw [hv] at h; cases h
    | ok v => rw [hv] at h; cases h; exact .call hv

theorem leads_iff_step : Leads r e c t d ↔ t.step r e c = .ok d := ⟨Leads.step, leads_of_step⟩

/-- The places that a chain passes, one after each of its tokens. -/
inductive Journey (r : Resolver) (e : Environment) :
    Cursor → List Token → List Cursor → Prop where
  | nil (c : Cursor) : Journey r e c [] []
  | cons {c d : Cursor} {t : Token} {ts : List Token} {cs : List Cursor} (h : Leads r e c t d)
      (hs : Journey r e d ts cs) : Journey r e c (t :: ts) (d :: cs)

/-- The place that a chain reaches. -/
def reach (r : Resolver) (e : Environment) (c : Cursor) (ts : List Token) :
    Except EvalError Cursor := ts.foldlM (Token.step r e) c

@[simp] theorem reach_nil : reach r e c [] = .ok c := rfl

theorem reach_cons : reach r e c (t :: ts) = (t.step r e c).bind fun d => reach r e d ts := rfl

theorem reach_append : reach r e c (ts ++ us) = (reach r e c ts).bind fun d => reach r e d us :=
  List.foldlM_append

theorem Journey.reach (h : Journey r e c ts cs) : Token.reach r e c ts = .ok (cs.getLastD c) := by
  induction h with
  | nil => rfl
  | @cons c d t ts cs h _ ih =>
    rw [reach_cons, h.step, List.getLastD_cons]
    exact ih

/-- A chain reaches the last place of the journey along it. -/
theorem reach_eq_ok_iff :
    Token.reach r e c ts = .ok d ↔ ∃ cs, Journey r e c ts cs ∧ cs.getLastD c = d := by
  constructor
  · intro h
    induction ts generalizing c with
    | nil => exact ⟨[], .nil c, Except.ok.inj h⟩
    | cons t ts ih =>
      rw [reach_cons] at h
      cases ht : t.step r e c with
      | error err => rw [ht] at h; cases h
      | ok b =>
        rw [ht] at h
        obtain ⟨cs, hs, hlast⟩ := ih h
        refine ⟨b :: cs, .cons (leads_of_step ht) hs, ?_⟩
        rwa [List.getLastD_cons]
  · intro h
    obtain ⟨cs, hj, rfl⟩ := h
    exact hj.reach

/-- A chain can be followed up to its end or up to a token that fails. -/
theorem exists_journey (r : Resolver) (e : Environment) (c : Cursor) (ts : List Token) :
    ∃ (done rest : List Token) (cs : List Cursor), ts = done ++ rest ∧ Journey r e c done cs ∧
      ∀ t ∈ rest.head?, ∃ err, t.step r e (cs.getLastD c) = .error err := by
  induction ts generalizing c with
  | nil => exact ⟨[], [], [], rfl, .nil c, by simp⟩
  | cons t ts ih =>
    cases ht : t.step r e c with
    | error err => exact ⟨[], t :: ts, [], rfl, .nil c, by simpa using ⟨err, ht⟩⟩
    | ok d =>
      obtain ⟨done, rest, cs, rfl, hj, hr⟩ := ih d
      refine ⟨t :: done, rest, d :: cs, rfl, .cons (leads_of_step ht) hj, ?_⟩
      rwa [List.getLastD_cons]

/-- The hit of a call that succeeds. -/
def callHit (before after : Cursor) : Token → List Hit
  | call name .. => [⟨before.path ++ "." ++ name, before.parent, after.value⟩]
  | _ => []

/-- The hits of all calls on a journey. -/
def callHits : Cursor → List Token → List Cursor → List Hit
  | c, t :: ts, d :: cs => t.callHit c d ++ callHits d ts cs
  | _, _, _ => []

/-- The hit at the end of a chain whose last token is no call. -/
def lastHit (ts : List Token) (last : Cursor) : List Hit :=
  if ts.getLast?.any (!·.isCall) then [last.hit] else []

theorem hits_eq (before after : Cursor) (last : Bool) (t : Token) :
    t.hits before after last = t.callHit before after ++ if last then lastHit [t] after else [] := by
  cases t <;> cases last <;> rfl

theorem lastHit_cons (t : Token) (hts : ts ≠ []) (d : Cursor) :
    lastHit (t :: ts) d = lastHit ts d := by
  unfold lastHit
  rw [List.getLast?_cons_of_ne_nil hts]

/-- What is found on a journey does not depend on what comes after it. -/
theorem Journey.walk_append (h : Journey r e c ts cs) (hus : us ≠ []) :
    walk r e c (ts ++ us) =
      (callHits c ts cs ++ (walk r e (cs.getLastD c) us).1, (walk r e (cs.getLastD c) us).2) := by
  induction h with
  | nil c => rfl
  | @cons c d t ts cs h _ ih =>
    have hne : (ts ++ us).isEmpty = false := by simp [hus]
    simp only [List.cons_append, walk, h.step, ih, hits_eq, hne, callHits, List.getLastD_cons,
      Bool.false_eq_true, if_false, List.append_nil, List.append_assoc]

theorem Journey.walk (h : Journey r e c ts cs) :
    walk r e c ts = (callHits c ts cs ++ lastHit ts (cs.getLastD c), .ok ()) := by
  induction h with
  | nil c => rfl
  | @cons c d t ts cs h hs ih =>
    simp only [Token.walk, h.step, ih, hits_eq, callHits, List.getLastD_cons]
    by_cases hts : ts = []
    · subst hts
      cases hs
      simp [callHits, lastHit]
    · simp [hts, lastHit_cons]

theorem walk_fail {err : EvalError} (h : t.step r e c = .error err) :
    walk r e c (t :: ts) = ([], .error err) := by simp only [walk, h]

/-- A chain fails where it cannot be followed further. -/
theorem walk_outcome (r : Resolver) (e : Environment) (c : Cursor) (ts : List Token) :
    (walk r e c ts).2 = (reach r e c ts).map fun _ => () := by
  induction ts generalizing c with
  | nil => rfl
  | cons t ts ih =>
    rw [reach_cons]
    cases ht : t.step r e c with
    | error err => rw [walk_fail ht]; rfl
    | ok d => simp only [walk, ht, ih]; rfl

/-- The last hit holds the value that is reached. -/
theorem Journey.last_value (h : Journey r e c ts cs) (hts : ts ≠ []) :
    ((callHits c ts cs ++ lastHit ts (cs.getLastD c)).getLast?).map (·.value) =
      some (cs.getLastD c).value := by
  induction h with
  | nil c => contradiction
  | @cons c d t ts cs h hs ih =>
    rw [List.getLastD_cons, callHits, List.append_assoc]
    by_cases hts : ts = []
    · subst hts
      cases hs
      cases t <;> simp [callHit, callHits, lastHit, isCall, Cursor.hit]
    · rw [lastHit_cons t hts, List.getLast?_append]
      obtain ⟨x, hx, hv⟩ := Option.map_eq_some_iff.mp (ih hts)
      rw [hx, Option.some_or, Option.map_some, hv]

/-- Environments in which every token steps alike lead to the same place. -/
theorem reach_congr_of_step {e' : Environment} (h : ∀ t ∈ ts, ∀ c, t.step r e c = t.step r e' c)
    (c : Cursor) : reach r e c ts = reach r e' c ts := by
  induction ts generalizing c with
  | nil => rfl
  | cons t ts ih =>
    rw [reach_cons, reach_cons, h t List.mem_cons_self c]
    congr 1
    funext d
    exact ih (fun u hu => h u (List.mem_cons_of_mem t hu)) d

theorem walk_congr_of_step {e' : Environment} (h : ∀ t ∈ ts, ∀ c, t.step r e c = t.step r e' c)
    (c : Cursor) : walk r e c ts = walk r e' c ts := by
  induction ts generalizing c with
  | nil => rfl
  | cons t ts ih =>
    simp only [walk, h t List.mem_cons_self c]
    split
    · rfl
    · rw [ih fun u hu => h u (List.mem_cons_of_mem t hu)]

end Token

namespace Plan

/-- Where the evaluation of a plan starts. -/
def start (document : Json) : Cursor := ⟨"", .none, document⟩

/-- The place that a plan reaches in a document. -/
def reach (p : Plan) (document root : Json) (c : Configuration) : Except EvalError Cursor :=
  Token.reach Closure.value ⟨c, root⟩ (start document) p.chain

/-- The value that a plan has in a document. -/
def value (p : Plan) (document root : Json) (c : Configuration) : Except EvalError Json :=
  (p.evaluate document root c).bind Context.result

theorem isDefinite_eq_true (p : Plan) : p.isDefinite = true := by
  unfold isDefinite
  rw [List.all_eq_true]
  intro t _
  cases t <;> rfl

theorem chain_ne_nil (p : Plan) : p.chain ≠ [] := List.cons_ne_nil _ _

variable {p : Plan} {document root : Json} {c : Configuration}

theorem evaluate_of_journey {cs : List Cursor}
    (h : Token.Journey Closure.value ⟨c, root⟩ (start document) p.chain cs) :
    p.evaluate document root c = .ok ⟨⟨c, root⟩, true, Token.callHits (start document) p.chain cs ++
      Token.lastHit p.chain (cs.getLastD (start document))⟩ := by
  have hw := h.walk
  unfold start at hw
  simp only [evaluate, evaluateWith, Context.follow, Context.start, hw, isDefinite_eq_true]
  rfl

theorem evaluate_error_iff {err : EvalError} :
    p.evaluate document root c = .error err ↔ p.reach document root c = .error err := by
  have hw := Token.walk_outcome Closure.value ⟨c, root⟩ (start document) p.chain
  unfold start at hw
  simp only [evaluate, evaluateWith, Context.follow, Context.start, hw, reach, start]
  cases Token.reach Closure.value ⟨c, root⟩ ⟨"", .none, document⟩ p.chain with
  | error err => simp [Except.map]
  | ok d => simp [Except.map]

theorem exists_journey_of_evaluate {found : Context}
    (h : p.evaluate document root c = .ok found) :
    ∃ cs, Token.Journey Closure.value ⟨c, root⟩ (start document) p.chain cs := by
  cases hr : p.reach document root c with
  | error err => rw [evaluate_error_iff.mpr hr] at h; cases h
  | ok d =>
    obtain ⟨cs, hj, _⟩ := Token.reach_eq_ok_iff.mp hr
    exact ⟨cs, hj⟩

/-- A successful run of a plan has a last hit. -/
theorem exists_last_hit {found : Context} (h : p.evaluate document root c = .ok found) :
    found.definite = true ∧ ∃ hit, found.hits.getLast? = some hit := by
  obtain ⟨cs, hj⟩ := exists_journey_of_evaluate h
  obtain ⟨hit, hhit, _⟩ := Option.map_eq_some_iff.mp (hj.last_value p.chain_ne_nil)
  rw [evaluate_of_journey hj] at h
  cases h
  exact ⟨rfl, hit, hhit⟩

/-- A plan has the value that its chain reaches. -/
theorem value_eq : p.value document root c = (p.reach document root c).map (·.value) := by
  cases hr : p.reach document root c with
  | error err => simp only [value, evaluate_error_iff.mpr hr]; rfl
  | ok d =>
    obtain ⟨cs, hj, rfl⟩ := Token.reach_eq_ok_iff.mp hr
    obtain ⟨x, hx, hv⟩ := Option.map_eq_some_iff.mp (hj.last_value p.chain_ne_nil)
    simp only [value, evaluate_of_journey hj, Except.bind, Context.result, hx, if_true, hv]
    rfl

theorem map_hits_evaluate (p : Plan) (document root : Json) (c : Configuration) :
    (p.evaluate document root c).map (·.hits) =
      (Token.walk Closure.value ⟨c, root⟩ (start document) p.chain).2.map fun _ =>
        (Token.walk Closure.value ⟨c, root⟩ (start document) p.chain).1 := by
  simp only [evaluate, evaluateWith, Context.follow, Context.start, start]
  generalize Token.walk Closure.value ⟨c, root⟩ ⟨"", .none, document⟩ p.chain = w
  obtain ⟨found, outcome⟩ := w
  cases outcome <;> rfl

end Plan
end JsonPath
