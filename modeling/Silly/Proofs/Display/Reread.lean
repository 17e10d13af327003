import Silly.Proofs.Display.RoundTrip

/-!
# Reading a source with other names

Which trees a source is read into depends on the table of names that the reading starts with, as a
tree holds the numbers that the table gives. Nothing else depends on it: read with two tables, a
source gives two trees that are alike, each name of the one having the text of the other
(`parse_alike`). Read twice with the same table, it gives one tree, which is thus alike to itself, and
so all of its names are in the table.

The canonical text of a tree is read back as the tree itself with the table that the tree is over. So
with any table it is read into a tree that is alike (`parse_display_alike`).
-/

namespace Silly

variable {names names' : Interner} {source : String} {p : Program}

/-- The tokens of a source have the same kinds and texts with all tables of names. -/
theorem faces_tokenize (source : String) (names names' : Interner) :
    (tokenize source names).1.map (·.face) = (tokenize source names').1.map (·.face) :=
  (faces_tokensOf (lexemes source) names).trans (faces_tokensOf (lexemes source) names').symm

/-- What two tables that are settled for a token have to say of it. -/
theorem Token.Settled.relates {t : Token} (h : t.Settled names) (h' : t.Settled names') :
    t.Relates (names.SameText names') names.nameOf names'.nameOf := by
  -- An identifier is related by its text, and a string literal by its contents.
  constructor
  · intro hk
    obtain ⟨s, hs, -⟩ := h.1 hk
    obtain ⟨s', hs', -⟩ := h'.1 hk
    exact .of_holds (Interner.holds_of_text? hs) (Interner.holds_of_text? hs')
  · intro hk
    obtain ⟨s, hs, -⟩ := h.2 hk
    obtain ⟨s', hs', -⟩ := h'.2 hk
    exact .of_holds (Interner.holds_of_text? hs) (Interner.holds_of_text? hs')

/-- A reading that succeeds, with the names that it leaves. -/
theorem parse_eq_of_ok (h : (parse source names).1 = .ok p) :
    parse source names = (.ok p, (parse source names).2) := by
  rw [← h]

/-- **A source that is read with one table of names is read with every other one**, and the two trees
are alike. -/
theorem parse_alike (h : parse source names = (.ok p, names')) (before : Interner) :
    ∃ p' after, parse source before = (.ok p', after) ∧ ProgramAlike (names'.SameText after) p p' := by
  -- The tokens of the source derive its tree with the names of the reading.
  have hp : DerivesProgram names'.nameOf (tokenize source names).1 p := by
    have hderives := parse_eq_ok_iff.mp (congrArg Prod.fst h)
    rwa [h] at hderives
  -- The tokens have other names here, but the grammar does not look at those.
  have hp' := hp.of_faces (faces_tokenize source before names)
  -- They derive some tree with the names of the other reading, so it succeeds.
  obtain ⟨q, hq⟩ := hp'.exists_of_name (parse source before).2.nameOf
  have hok := parse_eq_of_ok (parse_eq_ok_iff.mpr hq)
  refine ⟨q, _, hok, ?_⟩
  -- Hence its names are settled, and there is an alike tree among those derived; there is only one.
  obtain ⟨q', hq', halike⟩ := hp'.exists_alike fun t ht =>
    (settled_of_parse h before t ht).relates (settled_of_parse hok before t ht)
  have hsame := (parse_eq_ok_iff.mpr hq').symm.trans (parse_eq_ok_iff.mpr hq)
  obtain rfl : q' = q := Except.ok.inj hsame
  exact halike

/-- **Every name of a tree that is read is in the table.** -/
theorem alike_self_of_parse (h : parse source names = (.ok p, names')) :
    ProgramAlike (names'.SameText names') p p := by
  -- Read again with the same table, the source gives the same tree, and the alike one is that tree.
  obtain ⟨p', after, h', halike⟩ := parse_alike h names
  rw [h] at h'
  cases h'
  exact halike

/-- **The canonical text of a tree that is read** is read with every table of names, into a tree that
is alike. The table `mid` has grown from that of the first reading. -/
theorem parse_display_alike (h : parse source names = (.ok p, names')) (before : Interner) :
    ∃ mid p' after, parse (p.display names'.text) before = (.ok p', after) ∧
      ProgramAlike (names'.SameText mid) p p ∧ ProgramAlike (mid.SameText after) p p' := by
  -- The tree is read back as itself, with its own table, and so it is read with every table.
  have hread := parse_eq_of_ok (parse_display (wellFormed_of_parse h))
  obtain ⟨p', after, h', halike⟩ := parse_alike hread before
  refine ⟨_, p', after, h', ?_, halike⟩
  -- The names of the tree are still there in the table that has grown.
  exact (alike_self_of_parse h).mono fun _ _ hx => hx.of_extends (.refl names') (extends_parse _ _)

end Silly
