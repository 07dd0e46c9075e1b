import Reckoner.Proofs.Web.Routes
import Reckoner.Proofs.Web.Targets

/-!
# Where a redirect leads

A directory of the site that is asked for without a slash at its end is redirected, to the path
below the tree with a slash and not to the path of the request. So whoever follows the redirect
leaves the tree, as a rule, and finds nothing. Only where the directory is itself under a name like
that of the tree is the second request one for the tree again, and then it is for another directory:
the one whose path is shorter by this name.
-/
namespace Reckoner.Web

/-- The path in the site that a request path leads to through the tree. -/
def place? (path : List Char) : Option Path := (belowTree? path).bind filePath?

/-- The request that follows a redirect. -/
def Request.follow (request : Request) (location : Target) : Request :=
  { request with target := .parse location.chars }

/-- The bytes of a text. -/
def utf8 (cs : List Char) : List UInt8 := cs.flatMap String.utf8EncodeChar

theorem utf8_injective {cs ds : List Char} (h : utf8 cs = utf8 ds) : cs = ds := by
  have hbytes : (String.ofList cs).toByteArray = (String.ofList ds).toByteArray := by
    rw [String.toByteArray_ofList, String.toByteArray_ofList]
    exact congrArg List.toByteArray h
  exact String.ofList_injective (String.toByteArray_inj.mp hbytes)

theorem decodePercents_cons {c : Char} (hc : c ≠ '%') (cs : List Char) :
    decodePercents (c :: cs) = String.utf8EncodeChar c ++ decodePercents cs := by
  rw [decodePercents]
  rintro a b rest rfl
  exact absurd rfl hc

/-- Texts without escapes stand for their own bytes. -/
theorem decodePercents_append_of_plain {ds : List Char} (h : '%' ∉ ds) (cs : List Char) :
    decodePercents (ds ++ cs) = utf8 ds ++ decodePercents cs := by
  induction ds with
  | nil => rfl
  | cons d ds ih =>
    have hd : d ≠ '%' := fun hd => h (hd ▸ List.mem_cons_self)
    rw [List.cons_append, decodePercents_cons hd, ih fun hmem => h (List.mem_cons_of_mem d hmem)]
    rw [utf8, utf8, List.flatMap_cons, List.append_assoc]

/-- A percent sign that starts no escape stands for itself. -/
theorem decodePercents_percent {a b : Char} (rest : List Char)
    (h : ∀ high low, Text.hexDigit? a = some high → Text.hexDigit? b = some low → False) :
    decodePercents ('%' :: a :: b :: rest) =
      String.utf8EncodeChar '%' ++ decodePercents (a :: b :: rest) := by
  rw [decodePercents]
  split
  · rename_i hhigh hlow
    exact absurd hlow (h _ _ hhigh)
  · rfl

/-- A slash at the end completes no escape. -/
theorem decodePercents_append_slash (cs : List Char) :
    decodePercents (cs ++ ['/']) = decodePercents cs ++ utf8 ['/'] := by
  induction cs using decodePercents.induct with
  | case1 => rfl
  | case2 a b rest high low hlow hhigh ih =>
    simp only [List.cons_append, decodePercents, hlow, hhigh, ih]
  | case3 a b rest hno ih =>
    rw [decodePercents_percent rest hno, List.append_assoc, ← ih]
    exact decodePercents_percent (rest ++ ['/']) hno
  | case4 c rest hno ih =>
    have hslash : Text.hexDigit? '/' = none := by decide
    rw [decodePercents.eq_3 c rest hno, List.append_assoc, ← ih]
    by_cases hc : c = '%'
    · subst hc
      match rest, hno with
      | [], _ => rfl
      | [a], _ => exact decodePercents_percent [] fun _ low _ hlow => nomatch hslash.symm.trans hlow
      | a :: b :: rest, hno => exact absurd rfl (hno a b rest rfl)
    · exact decodePercents_cons hc (rest ++ ['/'])

theorem toByteArray_of_fromUTF8? {bytes : ByteArray} {text : String}
    (h : String.fromUTF8? bytes = some text) : text.toByteArray = bytes := by
  rw [String.fromUTF8?] at h
  split at h
  · cases h
    rfl
  · cases h

/-- A path leads along the names in the text that its bytes are. -/
theorem filePath?_eq_some {requested : List Char} {path : Path}
    (h : filePath? requested = some path) :
    ∃ text, decodePercents (requested.dropWhile (· = '/')) = utf8 text ∧ path = names text := by
  unfold filePath? at h
  split at h
  · cases h
  rename_i text hdecode
  have hbytes := congrArg ByteArray.data (toByteArray_of_fromUTF8? hdecode)
  rw [← String.utf8Encode_toList, List.utf8Encode, List.data_toByteArray] at hbytes
  refine ⟨text.toList, congrArg Array.toList hbytes.symm, ?_⟩
  split at h
  · cases h
  · split at h
    · cases h
    · exact (Option.some.inj h).symm

theorem split_append_slash (cs ds : List Char) :
    Text.split '/' (cs ++ '/' :: ds) = Text.split '/' cs ++ Text.split '/' ds := by
  induction cs with
  | nil => simp [Text.split]
  | cons c cs ih =>
    rw [List.cons_append, Text.split, Text.split, ih]
    split
    · rfl
    · obtain ⟨piece, pieces, hsplit⟩ := List.exists_cons_of_ne_nil (Text.split_ne_nil '/' cs)
      simp [hsplit]

theorem names_append_slash (cs ds : List Char) : names (cs ++ '/' :: ds) = names cs ++ names ds := by
  rw [names, split_append_slash, List.filter_append]
  rfl

@[simp] theorem names_nil : names [] = [] := by decide

/-- Slashes at the head of a text stand before no name. -/
theorem names_append_of_slashes {slashes : List Char} (h : ∀ c ∈ slashes, c = '/') (cs : List Char) :
    names (slashes ++ cs) = names cs := by
  induction slashes with
  | nil => rfl
  | cons c slashes ih =>
    rw [h c List.mem_cons_self, ← ih fun c hc => h c (List.mem_cons_of_mem _ hc)]
    exact (names_append_slash [] _).trans (by simp)

/-- What is under the name of the tree has that name before its own names. -/
theorem names_of_below_tree {text text' slashes : List Char} (h : ∀ c ∈ slashes, c = '/')
    (hutf8 : utf8 text ++ utf8 ['/'] = utf8 ("static/".toList ++ slashes) ++ utf8 text') :
    names text = "static".toList :: names text' := by
  have htext : text ++ '/' :: [] = "static".toList ++ '/' :: (slashes ++ text') := by
    apply utf8_injective
    simpa [utf8] using hutf8
  have hnames := congrArg names htext
  rw [names_append_slash, names_append_slash, names_append_of_slashes h, names_nil,
    List.append_nil] at hnames
  rw [hnames, show names "static".toList = ["static".toList] by decide, List.singleton_append]

theorem place?_eq_some {path : List Char} {place : Path} (h : place? path = some place) :
    ∃ below, belowTree? path = some below ∧ filePath? below = some place :=
  Option.bind_eq_some_iff.mp h

theorem head?_absolute (rest : List Char) : (absolute rest).head? = some '/' := by
  unfold absolute
  split <;> rfl

theorem absolute_cons {c : Char} (hc : c ≠ '/') (rest : List Char) :
    absolute (c :: rest) = '/' :: c :: rest := by
  unfold absolute
  split <;> simp_all

theorem dropWhile_absolute (rest : List Char) :
    (absolute rest).dropWhile (· = '/') = rest.dropWhile (· = '/') := by
  unfold absolute
  split <;> simp

theorem belowTree?_head? {path below : List Char} (h : belowTree? path = some below) :
    path.head? = some '/' ∧ below.head? = some '/' := by
  rcases belowTree?_eq_some h with ⟨rfl, rfl⟩ | ⟨rest, rfl, rfl⟩
  · exact ⟨rfl, rfl⟩
  · exact ⟨rfl, head?_absolute rest⟩

theorem mem_of_mem_below {path below : List Char} (h : belowTree? path = some below) {c : Char}
    (hc : c ∈ below) : c ∈ path := by
  rcases belowTree?_eq_some h with ⟨rfl, rfl⟩ | ⟨rest, rfl, rfl⟩
  · rw [List.mem_singleton.mp hc]
    decide
  · refine List.mem_append_right _ ?_
    unfold absolute at hc
    split at hc
    · exact List.mem_cons_of_mem _ hc
    · exact hc

/-- The path below the tree keeps its end, and gains a slash with the path of the request. -/
theorem below_append_slash {path below : List Char} (h : belowTree? path = some below)
    (hroot : below ≠ ['/']) (hend : path.getLast? ≠ some '/') :
    below.getLast? ≠ some '/' ∧ belowTree? (path ++ ['/']) = some (below ++ ['/']) := by
  rcases belowTree?_eq_some h with ⟨-, rfl⟩ | ⟨rest, rfl, rfl⟩
  · exact absurd rfl hroot
  rw [List.append_assoc, List.cons_append, belowTree?_slash]
  rcases rest with _ | ⟨c, rest⟩
  · exact absurd rfl hend
  have hlast : (treePath ++ '/' :: c :: rest).getLast? = (c :: rest).getLast? := by
    simp [List.getLast?_cons]
  rw [hlast] at hend
  by_cases hc : c = '/'
  · subst hc
    exact ⟨hend, rfl⟩
  · rw [List.cons_append, absolute_cons hc, absolute_cons hc, List.getLast?_cons_cons]
    exact ⟨hend, rfl⟩

/-- A path that is under the name of the tree once more leads, without it, to a shorter path. -/
theorem place_of_second_request {below : List Char} {dir place : Path}
    (hdir : filePath? below = some dir) (hplace : place? (below ++ ['/']) = some place) :
    dir = "static".toList :: place := by
  obtain ⟨below', htree, hfile⟩ := place?_eq_some hplace
  obtain ⟨text, htext, rfl⟩ := filePath?_eq_some hdir
  obtain ⟨text', htext', rfl⟩ := filePath?_eq_some hfile
  rcases belowTree?_eq_some htree with ⟨hpath, -⟩ | ⟨rest, hpath, rfl⟩
  · exact absurd (congrArg List.getLast? hpath) (by simp; decide)
  have hdrop : below.dropWhile (· = '/') ++ ['/'] = "static/".toList ++ rest := by
    have h := congrArg (List.dropWhile (· = '/')) hpath
    rw [List.dropWhile_append] at h
    split at h
    · cases h
    · exact h
  rw [dropWhile_absolute] at htext'
  have hslashes : ∀ c ∈ rest.takeWhile (· = '/'), c = '/' := by
    intro c hc
    simpa using List.mem_takeWhile_imp hc
  have hplain : '%' ∉ "static/".toList ++ rest.takeWhile (· = '/') := by
    intro hmem
    rcases List.mem_append.mp hmem with hmem | hmem
    · exact absurd hmem (by decide)
    · exact absurd (hslashes _ hmem) (by decide)
  apply names_of_below_tree hslashes
  rw [← htext, ← htext', ← decodePercents_append_slash, ← decodePercents_append_of_plain hplain,
    List.append_assoc, List.takeWhile_append_dropWhile, hdrop]

section Answers

variable (site : Site) {request : Request} {below : List Char}

theorem route_of_below (h : belowTree? request.target.path = some below) :
    Route.of request = .tree { request.target with path := below } := by
  have hevaluation : request.target.path ≠ evaluationPath := by
    intro hpath
    rw [hpath] at h
    exact absurd h (by rw [show belowTree? evaluationPath = none by decide]; nofun)
  have hindex : request.target.path ∉ indexPaths := by
    intro hmem
    have hnone : ∀ path ∈ indexPaths, belowTree? path = none := by decide
    exact absurd h (by rw [hnone _ hmem]; nofun)
  rw [Route.of, if_neg hevaluation, if_neg hindex, h]

theorem respond_directory {dir : Path} (h : belowTree? request.target.path = some below)
    (hreads : request.readsFile = true) (hfile : filePath? below = some dir)
    (hdirectory : site.isDirectory dir = true) (hend : below.getLast? ≠ some '/') :
    respond site request = .redirect { request.target with path := below ++ ['/'] } := by
  simp only [respond, route_of_below h, serveTree, hreads, hfile, hdirectory, if_neg hend]
  rfl

theorem respond_nowhere (hreads : request.readsFile = true)
    (hindex : request.target.path ∉ indexPaths) (hplace : place? request.target.path = none) :
    respond site request = .notFound := by
  cases hbelow : belowTree? request.target.path with
  | some below =>
    have hfile : filePath? below = none := by rwa [place?, hbelow] at hplace
    simp only [respond, route_of_below hbelow, serveTree, hreads, hfile]
    rfl
  | none =>
    have hmethod : request.method ≠ "POST" := by
      rcases readsFile_iff.mp hreads with h | h <;> rw [h] <;> decide
    have hroute : Route.of request = .nowhere := by
      rw [Route.of, if_neg hindex, hbelow, if_neg hmethod, ite_self]
    rw [respond, hroute]

end Answers

/-- A directory below the root that is asked for without a slash at its end is redirected, and who
follows is never led to it: nothing is found there, or it is another directory. -/
theorem redirect_leaves_directory (site : Site) {request : Request} {text : List Char} {dir : Path}
    (htarget : request.target = .parse text) (hreads : request.readsFile = true)
    (hplace : place? request.target.path = some dir) (hdir : dir ≠ [])
    (hdirectory : site.isDirectory dir = true)
    (hend : request.target.path.getLast? ≠ some '/') :
    ∃ location : Target, respond site request = .redirect location ∧
      belowTree? (request.target.path ++ ['/']) = some location.path ∧
      (place? (request.follow location).target.path = none ∧
          respond site (request.follow location) = .notFound ∨
        ∃ place, place? (request.follow location).target.path = some place ∧
          dir = "static".toList :: place) := by
  obtain ⟨below, hbelow, hfile⟩ := place?_eq_some hplace
  obtain ⟨hslash, hslash'⟩ := belowTree?_head? hbelow
  have hroot : below ≠ ['/'] := by
    rintro rfl
    exact hdir (Option.some.inj (hfile.symm.trans (by decide : filePath? ['/'] = some [])))
  obtain ⟨hend', hbelow'⟩ := below_append_slash hbelow hroot hend
  have hsendable : Target.Sendable { request.target with path := below ++ ['/'] } := by
    rw [htarget] at hslash hbelow ⊢
    have hparse := Target.sendable_parse hslash
    have hinside : Target.Sendable { Target.parse text with path := below } :=
      ⟨hparse.origin, hslash', fun c hc => hparse.plain c (mem_of_mem_below hbelow hc),
        hparse.query⟩
    exact hinside.withSlash
  have hfollow : (request.follow { request.target with path := below ++ ['/'] }).target =
      { request.target with path := below ++ ['/'] } := hsendable.parse_chars
  refine ⟨_, respond_directory site hbelow hreads hfile hdirectory hend', hbelow', ?_⟩
  rw [hfollow]
  cases hsecond : place? (below ++ ['/']) with
  | some place => exact .inr ⟨place, rfl, place_of_second_request hfile hsecond⟩
  | none =>
    refine .inl ⟨rfl, respond_nowhere site hreads ?_ ?_⟩
    · rw [hfollow]
      intro hmem
      have hends : ∀ path ∈ indexPaths, path = ['/'] ∨ path.getLast? ≠ some '/' := by decide
      rcases hends _ hmem with hpath | hpath
      · have hnil : below = [] := List.append_cancel_right (hpath.trans (List.nil_append _).symm)
        rw [hnil] at hslash'
        cases hslash'
      · exact hpath List.getLast?_concat
    · rw [hfollow]
      exact hsecond

/-- A site with index pages for its style sheets and for those of a directory under the name of the
tree. -/
def styleSite : Site :=
  ⟨[(["css".toList, indexName], "s"), (["static".toList, "css".toList, indexName], "t")],
    ⟨1970, 1, 1, 0, 0, 0⟩⟩

/-- A plain request for a file. -/
def plainGet (path : String) : Request := ⟨"GET", .parse path.toList, [], .empty⟩

/-- The style sheets under the name of the tree are redirected to the others. -/
theorem redirect_leaves_directory_under_tree_name :
    place? (plainGet "/static/static/css").target.path = some ["static".toList, "css".toList] ∧
      styleSite.isDirectory ["static".toList, "css".toList] = true ∧
      ∃ location : Target, respond styleSite (plainGet "/static/static/css") = .redirect location ∧
        belowTree? ((plainGet "/static/static/css").target.path ++ ['/']) = some location.path ∧
        (place? ((plainGet "/static/static/css").follow location).target.path = none ∧
            respond styleSite ((plainGet "/static/static/css").follow location) = .notFound ∨
          ∃ place, place? ((plainGet "/static/static/css").follow location).target.path =
              some place ∧ ["static".toList, "css".toList] = "static".toList :: place) := by
  have hplace :
      place? (plainGet "/static/static/css").target.path = some ["static".toList, "css".toList] := by
    decide
  have hdirectory : styleSite.isDirectory ["static".toList, "css".toList] = true := by decide
  have htarget : (plainGet "/static/static/css").target = .parse "/static/static/css".toList := rfl
  exact ⟨hplace, hdirectory, redirect_leaves_directory styleSite htarget (by decide) hplace
    (by decide) hdirectory (by decide)⟩

/-- The index page of the style sheets is served at their path with a slash. Without the slash they
are redirected, and whoever follows finds nothing. -/
theorem redirected_to_nothing :
    place? (plainGet "/static/css").target.path = some ["css".toList] ∧
      (respond styleSite (plainGet "/static/css/")).status = 200 ∧
      respond styleSite (plainGet "/static/css") = .redirect ⟨[], "/css/".toList, none⟩ ∧
      place? ((plainGet "/static/css").follow ⟨[], "/css/".toList, none⟩).target.path = none ∧
      respond styleSite ((plainGet "/static/css").follow ⟨[], "/css/".toList, none⟩) =
        .notFound :=
  ⟨by decide, rfl, rfl, by decide, rfl⟩

end Reckoner.Web
