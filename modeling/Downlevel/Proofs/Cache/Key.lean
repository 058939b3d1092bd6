/-
Downlevel.Proofs.Cache.Key — keys tell apart what may not share an entry.

A key is two digests with a colon between them. Digests are all of one
length (`Digest.length_ofText`), so a key falls apart into its digests in
one way only. Where the texts behind them do not collide, the key gives back
the source text and the canonical text (`Cache.texts_eq_of_key_eq`), and with
it a configuration whose identifiers come from names (`Cache.key_injective`).

That no two texts collide cannot be true of all texts, of which there are
more than digests. It is asked of the texts at hand: `Digest.CollisionFree`.
-/
import Downlevel.Cache.Basic
import Downlevel.Proofs.Configuration.CanonicalText

namespace Downlevel

/-! ## Digests -/

namespace Digest

theorem length_hex (s : State) : s.hex.length = 64 := rfl

theorem length_ofText (text : String) : (ofText text).toList.length = 64 := by
  rw [ofText, String.toList_ofList, length_hex]

/-- No two of these texts have the same digest. -/
def CollisionFree (texts : Set String) : Prop := texts.InjOn ofText

theorem CollisionFree.mono {texts more : Set String} (h : CollisionFree more)
    (hsub : texts ⊆ more) : CollisionFree texts :=
  Set.InjOn.mono hsub h

/-- Of finitely many texts it can be checked. -/
theorem collisionFree_of_all {texts : List String}
    (h : texts.all (fun a => texts.all fun b => ofText a != ofText b || a == b) = true) :
    CollisionFree {text | text ∈ texts} := by
  intro a ha b hb hdigest
  have hpair := List.all_eq_true.mp (List.all_eq_true.mp h a ha) b hb
  rw [Bool.or_eq_true, bne_iff_ne, beq_iff_eq] at hpair
  exact hpair.resolve_left fun hne => hne hdigest

end Digest

/-! ## Keys -/

namespace Cache

/-- A key shows the digest of its source text and that of its
configuration. -/
theorem key_eq_iff {s t : String} {a b : Configuration} :
    key s a = key t b ↔ Digest.ofText s = Digest.ofText t
      ∧ Digest.ofText a.canonicalText = Digest.ofText b.canonicalText := by
  constructor
  · intro h
    have hchars := congrArg String.toList h
    simp only [key, String.toList_append] at hchars
    rw [List.append_assoc, List.append_assoc] at hchars
    obtain ⟨hsource, hrest⟩ := List.append_inj hchars
      ((Digest.length_ofText s).trans (Digest.length_ofText t).symm)
    exact ⟨String.toList_injective hsource,
      String.toList_injective (List.append_cancel_left hrest)⟩
  · rintro ⟨hsource, htext⟩
    rw [key, key, hsource, htext]

theorem texts_eq_of_key_eq {s t : String} {a b : Configuration}
    (hfree : Digest.CollisionFree {s, t, a.canonicalText, b.canonicalText})
    (h : key s a = key t b) : s = t ∧ a.canonicalText = b.canonicalText := by
  obtain ⟨hsource, htext⟩ := key_eq_iff.1 h
  exact ⟨hfree (by simp) (by simp) hsource, hfree (by simp) (by simp) htext⟩

theorem key_injective {s t : String} {a b : Configuration} (ha : a.IsNamed) (hb : b.IsNamed)
    (hfree : Digest.CollisionFree {s, t, a.canonicalText, b.canonicalText})
    (h : key s a = key t b) : s = t ∧ a = b :=
  (texts_eq_of_key_eq hfree h).imp_right (Configuration.canonicalText_injective ha hb)

/-- **The canonical text and the key are faithful.** Take configurations whose
identifiers come from names. Equal texts come from configurations with the same
modules in the same order, the same target, mode and overrides; and equal keys
come from one source text under one configuration, unless texts collide. For
any configuration the order in which options and overrides were inserted does
not matter. -/
theorem canonicalText_and_key_faithful :
    (∀ a b : Configuration, a.IsNamed → b.IsNamed → a.canonicalText = b.canonicalText →
      a.modules = b.modules ∧ a.targetEnvironment = b.targetEnvironment
        ∧ a.sourceTypeMode = b.sourceTypeMode ∧ a.overrides = b.overrides)
    ∧ (∀ d e : Configuration.Draft, d.Reordered e →
      d.build.canonicalText = e.build.canonicalText)
    ∧ (∀ (s t : String) (a b : Configuration), a.IsNamed → b.IsNamed →
      Digest.CollisionFree {s, t, a.canonicalText, b.canonicalText} →
      key s a = key t b → s = t ∧ a = b) := by
  refine ⟨?_, ?_, ?_⟩
  · intro a b ha hb h
    rw [Configuration.canonicalText_injective ha hb h]
    exact ⟨rfl, rfl, rfl, rfl⟩
  · intro d e h
    exact Configuration.Draft.canonicalText_eq h
  · intro s t a b ha hb hfree h
    exact key_injective ha hb hfree h

/-- Two options and two overrides, in one order. -/
def draft : Configuration.Draft where
  modules := [⟨.known .presetReact,
    [("runtime", .str "classic"), ("pragma", .obj [("name", .str "h"), ("strict", .null)])]⟩]
  targetEnvironment := .es2017
  sourceTypeMode := .moduleGoal
  overrides := [("test", ⟨[], some .es5, none⟩), ("development", ⟨[], none, some .auto⟩)]

/-- The same settings as those of `draft`, made the other way round. -/
def draftBackwards : Configuration.Draft where
  modules := [⟨.known .presetReact,
    [("pragma", .obj [("strict", .null), ("name", .str "h")]), ("runtime", .str "classic")]⟩]
  targetEnvironment := .es2017
  sourceTypeMode := .moduleGoal
  overrides := [("development", ⟨[], none, some .auto⟩), ("test", ⟨[], some .es5, none⟩)]

theorem draft_reordered : draft.Reordered draftBackwards := by
  have hpragma : Json.Reordered (.obj [("name", .str "h"), ("strict", .null)])
      (.obj [("strict", .null), ("name", .str "h")]) :=
    .obj (.swap _ _ [] (by decide))
  refine ⟨.cons ⟨rfl, ?_⟩ .nil, rfl, rfl, .swap _ _ [] (by decide)⟩
  exact .trans (.swap _ _ [] (by decide)) (.cons hpragma (.cons (.same _) .nil))

theorem canonicalText_and_key_faithful_draft :
    draft.build.IsNamed ∧ draftBackwards.build.IsNamed
      ∧ draft.build.canonicalText = draftBackwards.build.canonicalText
      ∧ draft.build.modules = draftBackwards.build.modules
      ∧ key "let x" draft.build = key "let x" draftBackwards.build
      ∧ draft.build = draftBackwards.build := by
  have hdraft : draft.build.IsNamed := by decide +kernel
  have hbackwards : draftBackwards.build.IsNamed := by decide +kernel
  have htext := canonicalText_and_key_faithful.2.1 draft draftBackwards draft_reordered
  have hmodules := (canonicalText_and_key_faithful.1 _ _ hdraft hbackwards htext).1
  have hkey : key "let x" draft.build = key "let x" draftBackwards.build := by
    rw [key, key, htext]
  have hne : Digest.ofText "let x" ≠ Digest.ofText draftBackwards.build.canonicalText := by
    decide +kernel
  have hfree : Digest.CollisionFree {"let x", "let x", draft.build.canonicalText,
      draftBackwards.build.canonicalText} := by
    rw [htext, Set.insert_idem, Set.pair_eq_singleton]
    exact Set.injOn_pair.mpr fun h => absurd h hne
  exact ⟨hdraft, hbackwards, htext, hmodules, hkey,
    (canonicalText_and_key_faithful.2.2 "let x" "let x" _ _ hdraft hbackwards hfree hkey).2⟩

end Cache

end Downlevel
