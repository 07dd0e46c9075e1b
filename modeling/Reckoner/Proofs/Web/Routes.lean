import Reckoner.Web.Router

/-!
# Requests outside the routes

The service is for POST at one path; the index page and the tree of the site are for GET and HEAD.
No other request evaluates an expression, and none is answered with a file: its headers and its body
are not looked at, nor is the site. Where no file is served, nothing is found. The index page and
the tree see requests of every method, and what is not for reading is not allowed there.
-/
namespace Reckoner.Web

/-- The paths of the tree: its root, and all that go on from there behind a slash. -/
def InTree (path : List Char) : Prop := path = "/static".toList ∨ "/static/".toList <+: path

/-- The paths at which files are served. -/
def ServesFiles (path : List Char) : Prop :=
  path = "/".toList ∨ path = "/index.html".toList ∨ InTree path

/-- The requests that the routes are for. -/
inductive Documented (request : Request) : Prop where
  | evaluation (hmethod : request.method = "POST")
      (hpath : request.target.path = "/api/eval".toList)
  | file (hmethod : request.method = "GET" ∨ request.method = "HEAD")
      (hpath : ServesFiles request.target.path)

/-- The path with a slash at its head, if it has none there. -/
def absolute : List Char → List Char
  | '/' :: rest => '/' :: rest
  | cs => '/' :: cs

theorem belowTree?_treePath : belowTree? treePath = some ['/'] := rfl

theorem belowTree?_slash (rest : List Char) :
    belowTree? (treePath ++ '/' :: rest) = some (absolute rest) := by
  have hprefix : treePath.isPrefixOf (treePath ++ '/' :: rest) = true :=
    List.isPrefixOf_iff_prefix.mpr (List.prefix_append treePath _)
  rw [belowTree?, if_pos hprefix, List.drop_left]
  unfold absolute
  split <;> simp_all

/-- The paths of the tree, with what is below its root. -/
theorem belowTree?_eq_some {path below : List Char} (h : belowTree? path = some below) :
    path = treePath ∧ below = ['/'] ∨
      ∃ rest, path = treePath ++ '/' :: rest ∧ below = absolute rest := by
  by_cases hprefix : treePath <+: path
  · obtain ⟨others, rfl⟩ := hprefix
    rcases others with _ | ⟨c, rest⟩
    · rw [List.append_nil, belowTree?_treePath] at h
      cases h
      exact .inl ⟨List.append_nil _, rfl⟩
    by_cases hc : c = '/'
    · subst hc
      rw [belowTree?_slash] at h
      cases h
      exact .inr ⟨rest, rfl, rfl⟩
    · rw [belowTree?, if_pos (by rw [List.isPrefixOf_iff_prefix]; exact List.prefix_append _ _),
        List.drop_left] at h
      split at h <;> simp_all
  · rw [belowTree?, if_neg (by rwa [List.isPrefixOf_iff_prefix])] at h
    cases h

/-- The paths of the tree are those that have a path below its root. -/
theorem belowTree?_isSome_iff {path : List Char} : (belowTree? path).isSome = true ↔ InTree path := by
  have htree : "/static/".toList = treePath ++ ['/'] := rfl
  rw [Option.isSome_iff_exists]
  constructor
  · rintro ⟨below, h⟩
    rcases belowTree?_eq_some h with ⟨rfl, -⟩ | ⟨rest, rfl, -⟩
    · exact .inl rfl
    · exact .inr ⟨rest, by rw [htree, List.append_assoc, List.singleton_append]⟩
  · rintro (rfl | ⟨rest, rfl⟩)
    · exact ⟨_, belowTree?_treePath⟩
    · rw [htree, List.append_assoc, List.singleton_append]
      exact ⟨_, belowTree?_slash rest⟩

theorem not_servesFiles_evaluationPath : ¬ ServesFiles evaluationPath := by
  rintro (h | h | h)
  · exact absurd h (by decide)
  · exact absurd h (by decide)
  · exact absurd h (by unfold InTree; decide)

section Route

variable {request : Request}

theorem readsFile_iff :
    request.readsFile = true ↔ request.method = "GET" ∨ request.method = "HEAD" := by
  simp [Request.readsFile]

/-- Where files are served, the index page or the tree answers. -/
theorem route_of_servesFiles (h : ServesFiles request.target.path) :
    Route.of request = .indexPage ∨ ∃ inside, Route.of request = .tree inside := by
  have hevaluation : request.target.path ≠ evaluationPath := fun hpath =>
    not_servesFiles_evaluationPath (hpath ▸ h)
  rw [Route.of, if_neg hevaluation]
  by_cases hindex : request.target.path ∈ indexPaths
  · exact .inl (if_pos hindex)
  · have htree : InTree request.target.path := by
      rcases h with h | h | h
      · exact absurd (by rw [h]; decide) hindex
      · exact absurd (by rw [h]; decide) hindex
      · exact h
    obtain ⟨below, hbelow⟩ := Option.isSome_iff_exists.mp (belowTree?_isSome_iff.mpr htree)
    rw [if_neg hindex, hbelow]
    exact .inr ⟨_, rfl⟩

/-- Where no file is served and the service is not called, nothing answers. -/
theorem route_of_not_servesFiles (h : ¬ ServesFiles request.target.path)
    (hservice : request.target.path = evaluationPath → request.method ≠ "POST") :
    Route.of request = .nowhere := by
  by_cases hevaluation : request.target.path = evaluationPath
  · rw [Route.of, if_pos hevaluation, if_neg (hservice hevaluation)]
  · have hindex : request.target.path ∉ indexPaths := by
      intro hmem
      rcases List.mem_cons.mp hmem with hpath | hmem
      · exact h (.inl hpath)
      · exact h (.inr (.inl (List.mem_singleton.mp hmem)))
    have hbelow : belowTree? request.target.path = none := by
      rw [← Option.not_isSome_iff_eq_none, belowTree?_isSome_iff]
      exact fun htree => h (.inr (.inr htree))
    rw [Route.of, if_neg hevaluation, if_neg hindex, hbelow]

end Route

/-- A request that the routes are not for evaluates no expression. Where files are served it is
answered as not allowed, and everywhere else nothing is found: its headers, its body and the files
of the site do not matter. -/
theorem respond_outside_routes (site : Site) {request : Request} (h : ¬ Documented request) :
    Route.of request ≠ .evaluation ∧
      (ServesFiles request.target.path → respond site request = .bare 405) ∧
      (¬ ServesFiles request.target.path → respond site request = .bare 404) := by
  have hservice : request.target.path = evaluationPath → request.method ≠ "POST" :=
    fun hpath hmethod => h (.evaluation hmethod hpath)
  by_cases hfiles : ServesFiles request.target.path
  · have hreads : request.readsFile = false := by
      rw [← Bool.not_eq_true, readsFile_iff]
      exact fun hmethod => h (.file hmethod hfiles)
    refine ⟨?_, fun _ => ?_, fun hnot => absurd hfiles hnot⟩
    · rcases route_of_servesFiles hfiles with hroute | ⟨inside, hroute⟩ <;> rw [hroute] <;> nofun
    · rcases route_of_servesFiles hfiles with hroute | ⟨inside, hroute⟩
      · simp only [respond, hroute, serveSingle, hreads]
        rfl
      · simp only [respond, hroute, serveTree, hreads]
        rfl
  · have hroute := route_of_not_servesFiles hfiles hservice
    refine ⟨by rw [hroute]; nofun, fun hyes => absurd hyes hfiles, fun _ => ?_⟩
    rw [respond, hroute]
    rfl

/-- The root of the tree is not for storing files. -/
theorem respond_outside_routes_at_tree :
    ¬ Documented ⟨"PUT", .parse "/static".toList, [], .empty⟩ ∧
      Route.of ⟨"PUT", .parse "/static".toList, [], .empty⟩ ≠ .evaluation ∧
      respond ⟨[], ⟨1970, 1, 1, 0, 0, 0⟩⟩ ⟨"PUT", .parse "/static".toList, [], .empty⟩ =
        .bare 405 := by
  have houtside : ¬ Documented ⟨"PUT", .parse "/static".toList, [], .empty⟩ := by
    rintro (⟨hmethod, -⟩ | ⟨hmethod, -⟩)
    · exact absurd hmethod (by decide)
    · exact absurd hmethod (by decide)
  obtain ⟨hroute, hfiles, -⟩ :=
    respond_outside_routes ⟨[], ⟨1970, 1, 1, 0, 0, 0⟩⟩ houtside
  exact ⟨houtside, hroute, hfiles (.inr (.inr (.inl rfl)))⟩

/-- Posting to the index page is for no route, and yet the page is found there. -/
theorem post_to_index_page :
    ¬ Documented ⟨"POST", .parse "/".toList, [], .empty⟩ ∧
      ∀ site, (respond site ⟨"POST", .parse "/".toList, [], .empty⟩).status = 405 := by
  constructor
  · rintro (⟨-, hpath⟩ | ⟨hmethod, -⟩)
    · exact absurd hpath (by decide)
    · exact absurd hmethod (by decide)
  · exact fun site => rfl

end Reckoner.Web
