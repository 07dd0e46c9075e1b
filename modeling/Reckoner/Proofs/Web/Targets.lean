import Mathlib.Data.List.TakeWhile
import Reckoner.Web.Target

/-!
# Targets that are sent again

A target is written as its origin, its path and its query, one behind the other. Whoever reads that
text finds the same target, as long as its path starts with a slash: the path ends at the first
question mark, and the origin at the first slash behind its scheme. Every target that was read
itself, and whose path starts with a slash, is of this kind.
-/
namespace Reckoner.Web.Target

/-- Nothing, or a scheme with its mark and an authority. -/
inductive IsOrigin : List Char → Prop where
  | none : IsOrigin []
  | authority {scheme authority} (hscheme : ∀ c ∈ scheme, isSchemeChar c = true)
      (hauthority : ∀ c ∈ authority, c ≠ '/' ∧ c ≠ '?' ∧ c ≠ '#') :
      IsOrigin (scheme ++ [':', '/', '/'] ++ authority)

/-- A target that is the same when its text is read. -/
structure Sendable (t : Target) : Prop where
  origin : IsOrigin t.origin
  slash : t.path.head? = some '/'
  plain : ∀ c ∈ t.path, c ≠ '?' ∧ c ≠ '#'
  query : ∀ q, t.query = some q → '#' ∉ q

section Boundary

variable {p : Char → Bool} {cs ds : List Char}

theorem takeWhile_append_of_head (hcs : ∀ c ∈ cs, p c = true)
    (hds : ∀ c ∈ ds.head?, p c = false) : (cs ++ ds).takeWhile p = cs := by
  rw [List.takeWhile_append_of_pos hcs]
  cases ds with
  | nil => simp
  | cons d ds => simp [hds d rfl]

theorem dropWhile_append_of_head (hcs : ∀ c ∈ cs, p c = true)
    (hds : ∀ c ∈ ds.head?, p c = false) : (cs ++ ds).dropWhile p = ds := by
  rw [List.dropWhile_append_of_pos hcs]
  cases ds with
  | nil => simp
  | cons d ds => simp [hds d rfl]

end Boundary

theorem takeWhile_ne_hash {text : List Char} (h : '#' ∉ text) :
    text.takeWhile (fun c => decide (c ≠ '#')) = text :=
  List.takeWhile_eq_self_iff.mpr fun _ hc => decide_eq_true fun hhash => h (hhash ▸ hc)

theorem not_mem_takeWhile_ne_hash (text : List Char) :
    '#' ∉ text.takeWhile (fun c => decide (c ≠ '#')) :=
  fun hmem => by simpa using List.mem_takeWhile_imp hmem

/-- The path and the query are told apart again. -/
theorem ofPathAndQuery_chars (origin path : List Char) (query : Option (List Char))
    (hpath : ∀ c ∈ path, c ≠ '?') :
    ofPathAndQuery origin (path ++ query.elim [] ('?' :: ·)) = ⟨origin, path, query⟩ := by
  have hhead : ∀ c ∈ (query.elim [] ('?' :: ·)).head?, decide (c ≠ '?') = false := by
    cases query <;> simp
  have hall : ∀ c ∈ path, decide (c ≠ '?') = true := fun c hc => decide_eq_true (hpath c hc)
  have htail : (query.elim [] ('?' :: ·)).tail? = query := by cases query <;> rfl
  simp only [ofPathAndQuery, takeWhile_append_of_head hall hhead,
    dropWhile_append_of_head hall hhead, htail]

section Scheme

variable {text scheme authority rest : List Char}

theorem splitScheme?_append (h : ∀ c ∈ scheme, isSchemeChar c = true) (rest : List Char) :
    splitScheme? (scheme ++ ':' :: '/' :: '/' :: rest) =
      some (scheme ++ [':', '/', '/'], rest) := by
  have hcolon : ∀ c ∈ (':' :: '/' :: '/' :: rest).head?, isSchemeChar c = false := by simp; decide
  simp only [splitScheme?, dropWhile_append_of_head h hcolon, takeWhile_append_of_head h hcolon]

theorem splitScheme?_eq_some (h : splitScheme? text = some (scheme, rest)) :
    ∃ marks, (∀ c ∈ marks, isSchemeChar c = true) ∧ scheme = marks ++ [':', '/', '/'] ∧
      text = marks ++ ':' :: '/' :: '/' :: rest := by
  unfold splitScheme? at h
  split at h
  · rename_i rest' hdrop
    cases h
    refine ⟨text.takeWhile isSchemeChar, fun _ hc => List.mem_takeWhile_imp hc, rfl, ?_⟩
    rw [← hdrop, List.takeWhile_append_dropWhile]
  · cases h

/-- The texts that start with a slash have no origin. -/
theorem parse_of_slash (h : '#' ∉ '/' :: rest) :
    parse ('/' :: rest) = ofPathAndQuery [] ('/' :: rest) := by
  simp only [parse, takeWhile_ne_hash h]

theorem parse_of_splitScheme? {after : List Char} (hhash : '#' ∉ text)
    (hslash : text.head? ≠ some '/') (hsplit : splitScheme? text = some (scheme, rest))
    (hafter : rest.dropWhile (fun c => c ≠ '/' && c ≠ '?') = '/' :: after) :
    parse text =
      ofPathAndQuery (scheme ++ rest.takeWhile (fun c => c ≠ '/' && c ≠ '?')) ('/' :: after) := by
  unfold parse
  simp only [takeWhile_ne_hash hhash]
  split
  · exact absurd rfl hslash
  · simp only [hsplit, hafter]

/-- The texts with a scheme, an authority and a path behind a slash. -/
theorem parse_of_scheme (hscheme : ∀ c ∈ scheme, isSchemeChar c = true)
    (hauthority : ∀ c ∈ authority, c ≠ '/' ∧ c ≠ '?' ∧ c ≠ '#') (hrest : '#' ∉ '/' :: rest) :
    parse (scheme ++ ':' :: '/' :: '/' :: (authority ++ '/' :: rest)) =
      ofPathAndQuery (scheme ++ [':', '/', '/'] ++ authority) ('/' :: rest) := by
  have hhash : '#' ∉ scheme ++ ':' :: '/' :: '/' :: (authority ++ '/' :: rest) := by
    simp only [List.mem_append, List.mem_cons, not_or]
    refine ⟨fun hmem => absurd (hscheme _ hmem) (by decide), by decide, by decide, by decide,
      fun hmem => (hauthority _ hmem).2.2 rfl, ?_⟩
    simpa only [List.mem_cons, not_or] using hrest
  have hslash : (scheme ++ ':' :: '/' :: '/' :: (authority ++ '/' :: rest)).head? ≠ some '/' := by
    cases scheme with
    | nil => simp
    | cons c scheme =>
      intro hc
      have := hscheme c List.mem_cons_self
      rw [Option.some.inj hc] at this
      exact absurd this (by decide)
  have hall : ∀ c ∈ authority, (decide (c ≠ '/') && decide (c ≠ '?')) = true := by
    intro c hc
    simp [(hauthority c hc).1, (hauthority c hc).2.1]
  have hend : ∀ c ∈ ('/' :: rest).head?, (decide (c ≠ '/') && decide (c ≠ '?')) = false := by simp
  rw [parse_of_splitScheme? hhash hslash (splitScheme?_append hscheme _)
    (dropWhile_append_of_head hall hend), takeWhile_append_of_head hall hend]

end Scheme

/-- The text of a target is read as the target. -/
theorem Sendable.parse_chars {t : Target} (h : Sendable t) : parse t.chars = t := by
  obtain ⟨origin, path, query⟩ := t
  obtain ⟨horigin, hslash, hplain, hquery⟩ := h
  simp only at horigin hslash hplain hquery
  obtain ⟨rest, rfl⟩ : ∃ rest, path = '/' :: rest := by
    cases path with
    | nil => cases hslash
    | cons c rest => exact ⟨rest, by rw [Option.some.inj hslash]⟩
  have hpath := ofPathAndQuery_chars origin ('/' :: rest) query fun c hc => (hplain c hc).1
  have hhash : '#' ∉ '/' :: (rest ++ query.elim [] ('?' :: ·)) := by
    intro hmem
    rcases List.mem_append.mp (List.cons_append ▸ hmem) with hmem | hmem
    · exact (hplain _ hmem).2 rfl
    · cases query with
      | none => cases hmem
      | some q => exact hquery q rfl ((List.mem_cons.mp hmem).resolve_left (by decide))
  rw [chars, List.append_assoc]
  cases horigin with
  | none => exact (parse_of_slash hhash).trans hpath
  | @authority scheme authority hscheme hauthority =>
    refine Eq.trans ?_ ((parse_of_scheme hscheme hauthority hhash).trans hpath)
    simp only [List.append_assoc, List.cons_append, List.nil_append]

theorem Sendable.withSlash {t : Target} (h : Sendable t) : Sendable t.withSlash where
  origin := h.origin
  slash := by
    rw [Target.withSlash, List.head?_append, h.slash]
    rfl
  plain c hc := by
    rcases List.mem_append.mp hc with hc | hc
    · exact h.plain c hc
    · rw [List.mem_singleton.mp hc]
      decide
  query := h.query

theorem sendable_ofPathAndQuery {origin cs : List Char} (horigin : IsOrigin origin) (hcs : '#' ∉ cs)
    (hslash : (ofPathAndQuery origin cs).path.head? = some '/') :
    Sendable (ofPathAndQuery origin cs) where
  origin := horigin
  slash := hslash
  plain c hc := by
    have hquestion := List.mem_takeWhile_imp hc
    refine ⟨of_decide_eq_true hquestion, ?_⟩
    rintro rfl
    exact hcs ((List.takeWhile_prefix _).mem hc)
  query q hq hmem := by
    cases hrest : cs.dropWhile (· ≠ '?') with
    | nil =>
      rw [ofPathAndQuery, hrest] at hq
      cases hq
    | cons c rest =>
      rw [ofPathAndQuery, hrest] at hq
      cases hq
      have hmem' : '#' ∈ cs.dropWhile (· ≠ '?') := hrest ▸ List.mem_cons_of_mem c hmem
      exact hcs ((List.dropWhile_suffix _).mem hmem')

/-- What was read with a slash at the head of its path is sent as it is. -/
theorem sendable_parse {text : List Char} (h : (parse text).path.head? = some '/') :
    Sendable (parse text) := by
  have hhash := not_mem_takeWhile_ne_hash text
  revert h
  unfold parse
  simp only
  generalize text.takeWhile (fun c => decide (c ≠ '#')) = cs at hhash ⊢
  split
  · exact sendable_ofPathAndQuery .none hhash
  split
  · exact sendable_ofPathAndQuery .none hhash
  · rename_i scheme rest hsplit
    obtain ⟨marks, hmarks, rfl, rfl⟩ := splitScheme?_eq_some hsplit
    have hrest : '#' ∉ rest := fun hmem => hhash (by simp [hmem])
    have horigin : IsOrigin (marks ++ [':', '/', '/'] ++
        rest.takeWhile (fun c => decide (c ≠ '/') && decide (c ≠ '?'))) := by
      refine .authority hmarks fun c hc => ?_
      have hstop := List.mem_takeWhile_imp hc
      rw [Bool.and_eq_true, decide_eq_true_iff, decide_eq_true_iff] at hstop
      refine ⟨hstop.1, hstop.2, ?_⟩
      rintro rfl
      exact hrest ((List.takeWhile_prefix _).mem hc)
    have hafter : '#' ∉ rest.dropWhile (fun c => decide (c ≠ '/') && decide (c ≠ '?')) :=
      fun hmem => hrest ((List.dropWhile_suffix _).mem hmem)
    split
    · rename_i after hdrop
      exact sendable_ofPathAndQuery horigin (hdrop ▸ hafter)
    · exact sendable_ofPathAndQuery horigin
        fun hmem => hafter ((List.mem_cons.mp hmem).resolve_left (by decide))

end Reckoner.Web.Target
