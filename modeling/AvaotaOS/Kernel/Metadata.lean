/-
The metadata of the kernel packages: `gen_debian_file`, `gen_package_doc` and `dpkg-deb -b` of `scripts/mklinux.sh` over
the contents of the four package trees, with the generators of `scripts/lib/packages/kernel-deb.sh`.

The commands are those of the script model, in its order; here they act on the trees the install stages have left
(`Build.tree`, any trees). `install_headers` has switched errexit off, so that a command that fails is passed over.
`md5sum`, `gzip` and what `du` counts for a file are parameters (`Tools`). Model bound: what `sed` puts in the place of a
placeholder is taken literally, and a symbolic link on a path the stages write to leads out of the tree.
-/
import Mathlib.Tactic
import AvaotaOS.Boards
import AvaotaOS.Core.Shell
import AvaotaOS.Core.Text
import AvaotaOS.Core.FileTree
import AvaotaOS.Kernel.MkLinux

namespace AvaotaOS.Metadata

open Shell FileTree
open MkLinux (Pkg DebFile Cmd)

/-- the lines of a text -/
abbrev Lines := List (List Char)

abbrev Digest := BitVec 128

/-- what a file of a package tree holds -/
inductive Content where
  | bytes (l : List UInt8)
  | text (l : Lines)
  /-- the lines `md5sum` prints -/
  | sums (l : List (Digest × Path))
deriving DecidableEq

abbrev PkgTree := DirTree Content

/-! ## The generated files -/

def fileName : DebFile → String
  | .control => "control"
  | .postinst => "postinst"
  | .preinst => "preinst"
  | .prerm => "prerm"
  | .postrm => "postrm"
  | .changelog => "changelog"

def controlTemplate : Pkg → List String
  | .dtb =>
    ["Version: AVA_VERSION", "Maintainer: AvaotaSBC AvaotaOS <info@avaotaos.local>", "Section: kernel",
      "Package: linux-dtb-BOARD", "Architecture: ARCH", "Priority: optional", "Provides: linux-dtb, linux-dtb-avaotaos",
      "Description: AvaotaOS DTBs in /boot/dtb",
      " This package contains device tree blobs from the Linux kernel, version LINUX_VERSION.",
      "Installed-Size: INS_SIZE"]
  | .image =>
    ["Package: linux-image-BOARD", "Version: AVA_VERSION", "Source: linux-LINUX_VERSION",
      "AvaotaOS-Kernel-Version: LINUX_VERSION", "AvaotaOS-Kernel-Version-Family: LINUX_VERSION", "Architecture: ARCH",
      "Maintainer: AvaotaOS <info@avaotaos.local>", "Section: kernel", "Priority: optional",
      "Provides: linux-image, linux-image-avaotaos", "Description: AvaotaOS kernel image LINUX_VERSION",
      " This package contains the Linux kernel, modules and corresponding other files.", "Installed-Size: INS_SIZE"]
  | .headers =>
    ["Version: AVA_VERSION", "Maintainer: AvaotaOS <info@avaotaos.local>", "Section: devel",
      "Package: linux-headers-BOARD", "Architecture: ARCH", "Priority: optional",
      "Provides: linux-headers, linux-headers-avaotaos",
      "Depends: make, gcc, libc6-dev, bison, flex, libssl-dev, libelf-dev",
      "Description: AvaotaOS legacy headers LINUX_VERSION", " This package provides kernel header files for LINUX_VERSION",
      " .", " This is useful for DKMS and building of external modules.", "Installed-Size: 68130"]
  | .libcDev =>
    ["Version: AVA_VERSION", "Maintainer: AvaotaOS <info@avaotaos.local>", "Package: linux-libc-dev-BOARD",
      "Section: devel", "Priority: optional", "Provides: linux-libc-dev", "Conflicts: linux-libc-dev",
      "Architecture: ARCH", "Description: AvaotaOS support headers for userspace development",
      " This package provides userspaces headers from the Linux kernel.  These headers",
      " are used by the installed headers for GNU glibc and other system libraries.", "Multi-Arch: same",
      "Installed-Size: INS_SIZE"]

def changelogTemplate : List String :=
  ["linux-PART-BOARD (LINUX_VERSION) global; urgency=low", "", "  * Initial changelog entry for linux-PART-BOARD package.",
    "", " -- AvaotaSBC AvaotaOS <info@avaotaos.local>  May, 14 Jun 2024 23:59:59 +0000"]

/-- `gen_copyright` -/
def copyright : List String :=
  ["This is a packaged AvaotaOS patched version of the Linux kernel.", "",
    "The sources may be found at most Linux archive sites, including:", "https://www.kernel.org/pub/linux/kernel", "",
    "Copyright: 1991 - 2018 Linus Torvalds and others.", "", "The git repository for mainline kernel development is at:",
    "git://git.kernel.org/pub/scm/linux/kernel/git/torvalds/linux.git", "",
    "    This program is free software; you can redistribute it and/or modify",
    "    it under the terms of the GNU General Public License as published by",
    "    the Free Software Foundation; version 2 dated June, 1991.", "",
    "On Debian GNU/Linux systems, the complete text of the GNU General Public",
    "License version 3 can be found in \x60/usr/share/common-licenses/GPL-3\x60."]

/-- a maintainer script: the frame all of them have, around the lines of their own -/
def maintainer (part script : String) (body : List String) : List String :=
  ["#!/bin/bash", "echo \"AvaotaOS 'linux-" ++ part ++ "-BOARD' for 'LINUX_VERSION': '" ++ script ++ "' starting.\"",
    "set -e # Error control", "", "#set -x # Debugging"] ++ body ++
  ["", "set +x # Disable debugging",
    "echo \"AvaotaOS 'linux-" ++ part ++ "-BOARD' for 'LINUX_VERSION': '" ++ script ++ "' finishing.\"", "true"]

/-- the lines that run the hooks of the distribution -/
def hooks (script : String) : List String :=
  ["", "export DEB_MAINT_PARAMS=\"$*\" # Pass maintainer script parameters to hook scripts",
    "export INITRD=Yes # Tell initramfs builder whether it's wanted",
    "# Run the same hooks Debian/Ubuntu would for their kernel packages.",
    "test -d /etc/kernel/" ++ script ++ ".d && run-parts --arg=\"LINUX_VERSION\" --arg=\"/boot/vmlinuz-LINUX_VERSION\" " ++
      "/etc/kernel/" ++ script ++ ".d"]

def headersClean (verb : String) : List String :=
  ["", "if [[ -d \"/usr/src/linux-headers-LINUX_VERSION\" ]]; then",
    "echo \"Cleaning " ++ verb ++ "directory /usr/src/linux-headers-LINUX_VERSION ...\"",
    "rm -rf \"/usr/src/linux-headers-LINUX_VERSION\"", "fi"]

/-- the text a generator starts from -/
def template : Pkg → DebFile → List String
  | p, .control => controlTemplate p
  | _, .changelog => changelogTemplate
  | .dtb, .postinst =>
    maintainer "dtb" "postinst"
      ["", "cd /boot", "",
        "echo \"AvaotaOS: DTB: FAT32: moving /boot/dtb-LINUX_VERSION to /boot/dtb ...\"", "mv -v \"dtb-LINUX_VERSION\" dtb"]
  | .dtb, .preinst => maintainer "dtb" "preinst" ["", "rm -rf /boot/dtb", "rm -rf /boot/dtb-LINUX_VERSION"]
  | .headers, .postinst =>
    maintainer "headers" "postinst"
      ["ln -s \"/usr/src/linux-headers-LINUX_VERSION\" \"/lib/modules/LINUX_VERSION/build\"",
        "cd \"/usr/src/linux-headers-LINUX_VERSION\"", "NCPU=$(grep -c 'processor' /proc/cpuinfo)",
        "echo \"Compiling kernel-headers tools (LINUX_VERSION) using $NCPU CPUs - please wait ...\"",
        "yes \"\" | make ARCH=\"T_ARCH\" oldconfig", "make ARCH=\"T_ARCH\" -j$NCPU scripts",
        "make ARCH=\"T_ARCH\" -j$NCPU M=scripts/mod/",
        "# make ARCH=\"T_ARCH\" -j$NCPU modules_prepare # depends on too much other stuff.",
        "echo \"Done compiling kernel-headers tools (LINUX_VERSION).\"",
        "echo \"Done compiling kernel-headers tools (LINUX_VERSION).\""]
  | .headers, .preinst => maintainer "headers" "preinst" (headersClean "pre-existing ")
  | .headers, .prerm => maintainer "headers" "prerm" (headersClean "")
  | .image, .postinst =>
    maintainer "image" "postinst"
      (hooks "postinst" ++
        ["touch /boot/.next", "", "echo \"AvaotaOS: FAT32 /boot: move last-installed kernel to 'Image'...\"",
          "mv -v /boot/vmlinuz-LINUX_VERSION /boot/Image"])
  | .image, .postrm => maintainer "image" "postrm" (hooks "postrm")
  | .image, .preinst =>
    maintainer "image" "preinst"
      (hooks "preinst" ++
        ["", "rm -f /boot/System.map* /boot/config* /boot/vmlinuz* /boot/Image /boot/uImage"])
  | .image, .prerm => maintainer "image" "prerm" (hooks "prerm")
  | _, _ => []

/-- the placeholders, in the order of the `sed` calls -/
def placeholders : Pkg → DebFile → List String
  | _, .control => ["AVA_VERSION", "BOARD", "ARCH", "LINUX_VERSION", "INS_SIZE"]
  | _, .changelog => ["PART", "BOARD", "LINUX_VERSION"]
  | .headers, .postinst => ["BOARD", "T_ARCH", "LINUX_VERSION"]
  | _, _ => ["BOARD", "LINUX_VERSION"]

/-! ## One build -/

/-- the tools the stages call -/
structure Tools where
  md5sum : Content → Digest
  /-- with the name and the time stamp that go into the archive -/
  gzip : Pkg → Content → Content
  /-- what `du -k` counts for a file, for a directory and for a link -/
  file : Content → ℕ
  dir : ℕ
  link : ℕ

structure Build where
  sel : Selection
  AVA_VERSION : List Char
  workspace : List Char
  tools : Tools
  /-- what the install stages have left under `deb-data` -/
  tree : Pkg → PkgTree
  /-- the answer where `gzip` asks whether it may overwrite -/
  overwrite : Pkg → Bool

/-- every board file says `ARCH="arm64"` -/
def ARCH : Board → List Char := fun _ => "arm64".toList

def Tools.room (x : Tools) : Node Content → ℕ
  | .file c => x.file c
  | .dir => x.dir
  | .link _ => x.link

/-- the number of `du -sk`: the entries and the root itself -/
def Tools.du (x : Tools) (t : PkgTree) : ℕ := x.dir + t.total x.room

namespace Build

variable (b : Build)

def PKG_NAME : List Char := MkLinux.PKG_NAME b.sel.conf

/-- `${DEB_DATA_PATH}/dtb` and the others -/
def path (p : Pkg) : List Char := b.workspace ++ "/deb-data/".toList ++ p.part

/-- what `du -sk` prints -/
def duLine (p : Pkg) (t : PkgTree) : List Char := Text.decimal (b.tools.du t) ++ '\t' :: b.path p

/-- `usr/share/doc/linux-dtb-${PKG_NAME}` and the others -/
def docParent : Path := ["usr", "share", "doc"]

def docName (p : Pkg) : String := "linux-" ++ String.ofList p.part ++ "-" ++ String.ofList b.PKG_NAME

def docDir (p : Pkg) : Path := docParent ++ [b.docName p]

/-- the words `${2}`, `${3}`, .. of a call: no expansion is quoted, so one that is empty shifts those after it -/
def args (p : Pkg) (f : DebFile) (ver size : List Char) : List (List Char) :=
  match p, f with
  | _, .control =>
    Text.words b.AVA_VERSION ++ Text.words b.PKG_NAME ++ Text.words (ARCH b.sel.board) ++ Text.words ver ++ Text.words size
  | p, .changelog => p.part :: Text.words b.PKG_NAME ++ Text.words ver
  | .headers, .postinst => Text.words b.PKG_NAME ++ Text.words (ARCH b.sel.board) ++ Text.words ver
  | _, _ => Text.words b.PKG_NAME ++ Text.words ver

/-- one `sed -i "s|PLACEHOLDER|${i}|g"` -/
def substitute (p : Pkg) (f : DebFile) (i : ℕ) (ver size : List Char) : Content → Content
  | .text l => .text (l.map (Text.sed ((placeholders p f).getD i "").toList ((b.args p f ver size).getD i [])))
  | c => c

end Build

/-- the names `ls` prints -/
def ls (a : Path) (t : PkgTree) : List String :=
  ((t.nodes.keys.filter fun q => q ≠ [] ∧ q.dropLast = a).filterMap List.getLast?).filter
    (fun n => n.toList.head? ≠ some '.') |>.mergeSort fun m n => decide (m ≤ n)

/-- `! -path './DEBIAN/*'` -/
def outside (q : Path) : Bool := !(q.head? = some "DEBIAN" ∧ 2 ≤ q.length)

/-- the line `md5sum` prints for a file -/
def sumLine (x : Tools) (t : PkgTree) (q : Path) : Option (Digest × Path) :=
  match t.lookup q with
  | some (.file c) => some (x.md5sum c, q)
  | _ => none

/-! ## What the commands do -/

structure World where
  tree : Pkg → PkgTree
  KERNEL_VER : List Char
  /-- what `$(du -sk ..)` gave last -/
  size : List Char
  /-- what `find` has listed last -/
  found : List Path
  /-- what `dpkg-deb -b` has packed -/
  deb : Pkg → Option PkgTree

/-- a tool works on the tree of one package -/
def World.on (w : World) (p : Pkg) (f : PkgTree → Option PkgTree) : Stat × World :=
  match f (w.tree p) with
  | some t => (.ok, { w with tree := Function.update w.tree p t })
  | none => (.fail, w)

/-- `mkdir -p` -/
def World.mkdir (w : World) (p : Pkg) (q : Path) : Stat × World :=
  (if ((w.tree p).mkdirP q).isDir q then .ok else .fail,
    { w with tree := Function.update w.tree p ((w.tree p).mkdirP q) })

def exec (b : Build) (c : Cmd) (w : World) : Stat × World :=
  match c with
  | .lsKernelVer =>
    (if (w.tree .image).isDir ["lib", "modules"] then .ok else .fail,
      { w with KERNEL_VER := "\n".toList.intercalate ((ls ["lib", "modules"] (w.tree .image)).map String.toList) })
  | .gen p .mkdirDebian => w.mkdir p ["DEBIAN"]
  | .gen p .du => (.ok, { w with size := b.duLine p (w.tree p) })
  | .gen p (.cat f) => w.on p (DirTree.write ["DEBIAN"] (fileName f) (.text ((template p f).map String.toList)))
  | .gen p (.sed f i) => w.on p (DirTree.edit ["DEBIAN"] (fileName f) (b.substitute p f i w.KERNEL_VER w.size))
  | .gen p .find => (.ok, { w with found := ((w.tree p).files.map Prod.fst).filter outside })
  | .gen p .md5sum => w.on p (DirTree.write ["DEBIAN"] "md5sums" (.sums (w.found.filterMap (sumLine b.tools (w.tree p)))))
  | .mkdirDoc p => w.mkdir p (b.docDir p)
  | .genCopyright p => w.on p (DirTree.write (b.docDir p) "copyright" (.text (copyright.map String.toList)))
  | .cpChangelog p =>
    w.on p fun t => (t.read ["DEBIAN", "changelog"]).bind fun c => t.cpInto Build.docParent (b.docName p) "changelog" c
  | .gzipChangelog p => w.on p (DirTree.gzip (b.docDir p) "changelog" "changelog.gz" (b.tools.gzip p) (b.overwrite p))
  | .dpkgDeb p =>
    -- without a control file there is no package
    match (w.tree p).lookup ["DEBIAN", "control"] with
    | some (.file _) => (.ok, { w with deb := Function.update w.deb p (some (w.tree p)) })
    | _ => (.fail, w)
  | _ => (.ok, w)

/-- the last three stages of the script -/
def script : Sh Cmd World :=
  seqs [.errexit false, block (MkLinux.gen_debian_file ++ MkLinux.gen_package_doc ++ MkLinux.pkgs.map .dpkgDeb)]

def Build.start (b : Build) : World := ⟨b.tree, [], [], [], fun _ => none⟩

/-- the tree a package is made from, if it is made -/
def Build.deb (b : Build) (p : Pkg) : Option PkgTree := (run (exec b) script b.start).w.deb p

/-! ## The trees after the stages -/

/-- the tree of one package replaced -/
def World.set (w : World) (p : Pkg) (t : PkgTree) : World := { w with tree := Function.update w.tree p t }

@[simp] theorem set_tree_self (w : World) (p : Pkg) (t : PkgTree) : (w.set p t).tree p = t := Function.update_self _ _ _

@[simp] theorem set_tree_ne (w : World) {p q : Pkg} (h : q ≠ p) (t : PkgTree) : (w.set p t).tree q = w.tree q :=
  Function.update_of_ne h _ _

@[simp] theorem set_set (w : World) (p : Pkg) (t u : PkgTree) : (w.set p t).set p u = w.set p u := by
  simp [World.set]

@[simp] theorem set_self (w : World) (p : Pkg) : w.set p (w.tree p) = w := by
  simp [World.set]

theorem on_eq (w : World) (p : Pkg) (f : PkgTree → Option PkgTree) :
    (w.on p f).2 = w.set p ((f (w.tree p)).getD (w.tree p)) := by
  unfold World.on
  cases f (w.tree p) with
  | none => exact (set_self w p).symm
  | some t => rfl

/-- no command kills the script -/
theorem exec_stat (b : Build) (c : Cmd) (w : World) : (exec b c w).1 ≠ .killed := by
  have hon : ∀ p f, (w.on p f).1 ≠ .killed := by
    intro p f
    unfold World.on
    split <;> simp
  have hmk : ∀ p q, (w.mkdir p q).1 ≠ .killed := by
    intro p q
    unfold World.mkdir
    dsimp only
    split <;> simp
  have hdeb : ∀ (o : Option (Node Content)) (x y : World),
      (match o with | some (.file _) => (Stat.ok, x) | _ => (Stat.fail, y)).1 ≠ .killed := by
    intro o x y
    split <;> simp
  unfold exec
  split <;> first | exact hdeb _ _ _ | exact hon _ _ | exact hmk _ _ | (dsimp only; split <;> simp) | simp

variable {b : Build}

/-! ### `gen_debian_file` -/

/-- the file the seds leave -/
def Build.text (b : Build) (p : Pkg) (f : DebFile) (ver size : List Char) : ℕ → Content
  | 0 => .text ((template p f).map String.toList)
  | n + 1 => b.substitute p f n ver size (b.text p f ver size n)

/-- the files each package gets -/
def debFiles : Pkg → List DebFile
  | .dtb => [.control, .postinst, .preinst, .changelog]
  | .image => [.control, .postinst, .postrm, .preinst, .prerm, .changelog]
  | .headers => [.control, .postinst, .preinst, .prerm, .changelog]
  | .libcDev => [.control, .changelog]

/-- a generated file in its final form -/
def Build.made (b : Build) (p : Pkg) (ver size : List Char) (t : PkgTree) (f : DebFile) : PkgTree :=
  t.renew ["DEBIAN"] (fileName f) (b.text p f ver size (placeholders p f).length)

theorem effect_seds (p : Pkg) (f : DebFile) (n : ℕ) (w : World) :
    effect (exec b) ((List.range (n + 1)).map fun i => .gen p (.sed f i)) (exec b (.gen p (.cat f)) w).2 =
      w.set p ((w.tree p).renew ["DEBIAN"] (fileName f) (b.text p f w.KERNEL_VER w.size (n + 1))) := by
  induction n with
  | zero =>
    have hc : (exec b (.gen p (.cat f)) w).2 = _ := on_eq w p _
    have hs := on_eq (exec b (.gen p (.cat f)) w).2 p
      (DirTree.edit ["DEBIAN"] (fileName f) (b.substitute p f 0 w.KERNEL_VER w.size))
    rw [hc] at hs ⊢
    rw [set_tree_self, DirTree.edit_write, set_set] at hs
    exact hs
  | succ n ih =>
    rw [List.range_succ, List.map_append, effect_append, ih]
    have hs := on_eq (w.set p ((w.tree p).renew ["DEBIAN"] (fileName f) (b.text p f w.KERNEL_VER w.size (n + 1)))) p
      (DirTree.edit ["DEBIAN"] (fileName f) (b.substitute p f (n + 1) w.KERNEL_VER w.size))
    rw [set_tree_self, DirTree.edit_renew, set_set] at hs
    exact hs

/-- the commands generate these files of the package, and nothing else -/
def Makes (b : Build) (p : Pkg) (l : List Cmd) (fs : List DebFile) : Prop :=
  ∀ w, effect (exec b) l w = w.set p (fs.foldl (b.made p w.KERNEL_VER w.size) (w.tree p))

theorem Makes.append {p : Pkg} {l m : List Cmd} {fs gs : List DebFile} (hl : Makes b p l fs) (hm : Makes b p m gs) :
    Makes b p (l ++ m) (fs ++ gs) := by
  intro w
  rw [effect_append, hl w, hm _, set_tree_self, set_set, List.foldl_append]
  rfl

theorem makes_genFile {p : Pkg} {f : DebFile} {n : ℕ} (hn : (placeholders p f).length = n) (h0 : n ≠ 0) :
    Makes b p (MkLinux.genFile p f n) [f] := by
  intro w
  obtain ⟨m, rfl⟩ := Nat.exists_eq_succ_of_ne_zero h0
  rw [MkLinux.genFile, effect_cons, effect_seds, List.foldl_cons, List.foldl_nil, Build.made, hn]

theorem makes_genScript {p : Pkg} {f : DebFile} {n : ℕ} (hn : (placeholders p f).length = n) (h0 : n ≠ 0) :
    Makes b p (MkLinux.genScript p f n) [f] := by
  intro w
  rw [MkLinux.genScript, effect_append, makes_genFile hn h0 w]
  rfl

/-- `DEBIAN/`, as `du` finds it -/
def debianDir (t : PkgTree) : PkgTree := t.mkdirP ["DEBIAN"]

/-- the tree with all the generated files but the sums -/
def Build.filled (b : Build) (p : Pkg) (ver : List Char) (t : PkgTree) : PkgTree :=
  (debFiles p).foldl (b.made p ver (b.duLine p (debianDir t))) (debianDir t)

/-- the lines of `gen_md5` -/
def Build.sumLines (b : Build) (t : PkgTree) : List (Digest × Path) :=
  ((t.files.map Prod.fst).filter outside).filterMap (sumLine b.tools t)

def Build.summed (b : Build) (t : PkgTree) : PkgTree := (t.write ["DEBIAN"] "md5sums" (.sums (b.sumLines t))).getD t

/-- what the stage does to the tree of one package -/
def Build.described (b : Build) (p : Pkg) (ver : List Char) (t : PkgTree) : PkgTree := b.summed (b.filled p ver t)

/-- the calls of `gen_debian_file` for the files of one package after its control file -/
def genRest : Pkg → List Cmd
  | .dtb => MkLinux.genScript .dtb .postinst 2 ++ (MkLinux.genScript .dtb .preinst 2 ++ MkLinux.genFile .dtb .changelog 3)
  | .image => MkLinux.genScript .image .postinst 2 ++ (MkLinux.genScript .image .postrm 2 ++
      (MkLinux.genScript .image .preinst 2 ++ (MkLinux.genScript .image .prerm 2 ++ MkLinux.genFile .image .changelog 3)))
  | .headers => MkLinux.genScript .headers .postinst 3 ++ (MkLinux.genScript .headers .preinst 2 ++
      (MkLinux.genScript .headers .prerm 2 ++ MkLinux.genFile .headers .changelog 3))
  | .libcDev => MkLinux.genFile .libcDev .changelog 3

def genPackage (p : Pkg) : List Cmd := MkLinux.genControl p ++ (genRest p ++ MkLinux.gen_md5 p)

theorem gen_debian_file_eq : MkLinux.gen_debian_file = .lsKernelVer :: MkLinux.pkgs.flatMap genPackage := rfl

theorem makes_genRest (p : Pkg) : Makes b p (genRest p) (debFiles p).tail := by
  have script : ∀ {f n}, (placeholders p f).length = n → n ≠ 0 → Makes b p (MkLinux.genScript p f n) [f] := makes_genScript
  have file : ∀ {f n}, (placeholders p f).length = n → n ≠ 0 → Makes b p (MkLinux.genFile p f n) [f] := makes_genFile
  cases p with
  | dtb => exact (script rfl (by decide)).append ((script rfl (by decide)).append (file rfl (by decide)))
  | image =>
    exact (script rfl (by decide)).append ((script rfl (by decide)).append ((script rfl (by decide)).append
      ((script rfl (by decide)).append (file rfl (by decide)))))
  | headers =>
    exact (script rfl (by decide)).append ((script rfl (by decide)).append ((script rfl (by decide)).append
      (file rfl (by decide))))
  | libcDev => exact file rfl (by decide)

theorem effect_genControl (p : Pkg) (w : World) : effect (exec b) (MkLinux.genControl p) w =
    { w with size := b.duLine p (debianDir (w.tree p)) }.set p
      (b.made p w.KERNEL_VER (b.duLine p (debianDir (w.tree p))) (debianDir (w.tree p)) .control) := by
  obtain ⟨v, hv⟩ : ∃ v, v = effect (exec b) [.gen p .mkdirDebian, .gen p .du] w := ⟨_, rfl⟩
  have hv' : v = { w with size := b.duLine p (debianDir (w.tree p)) }.set p (debianDir (w.tree p)) := by
    calc v = { w.set p (debianDir (w.tree p)) with
          size := b.duLine p ((w.set p (debianDir (w.tree p))).tree p) } := hv
      _ = _ := by rw [set_tree_self]; rfl
  have hc : Makes b p (MkLinux.genFile p .control 5) [.control] := makes_genFile (by cases p <;> rfl) (by decide)
  rw [MkLinux.genControl, effect_append, ← hv, hc v, hv', set_tree_self, set_set]
  rfl

theorem effect_gen_md5 (p : Pkg) (w : World) : effect (exec b) (MkLinux.gen_md5 p) w =
    { w with found := ((w.tree p).files.map Prod.fst).filter outside }.set p (b.summed (w.tree p)) :=
  on_eq { w with found := ((w.tree p).files.map Prod.fst).filter outside } p
    (DirTree.write ["DEBIAN"] "md5sums" (.sums (b.sumLines (w.tree p))))

theorem filled_eq (p : Pkg) (ver : List Char) (t : PkgTree) : b.filled p ver t =
    (debFiles p).tail.foldl (b.made p ver (b.duLine p (debianDir t)))
      (b.made p ver (b.duLine p (debianDir t)) (debianDir t) .control) := by
  have hf : debFiles p = .control :: (debFiles p).tail := by cases p <;> rfl
  rw [Build.filled, hf, List.foldl_cons, List.tail_cons]

/-- **One package**: its tree is described, the others stay -/
theorem effect_genPackage (p : Pkg) (w : World) : ∃ s f,
    effect (exec b) (genPackage p) w =
      { w with size := s, found := f }.set p (b.described p w.KERNEL_VER (w.tree p)) := by
  rw [genPackage, effect_append, effect_append, effect_genControl, makes_genRest p _, effect_gen_md5, Build.described,
    filled_eq]
  simp only [World.set, Function.update_self, Function.update_idem]
  exact ⟨_, _, rfl⟩

/-! ### All the packages -/

/-- the commands change the tree of one package -/
def Visits (b : Build) (p : Pkg) (l : List Cmd) (F : List Char → PkgTree → PkgTree) : Prop :=
  ∀ w, (effect (exec b) l w).tree = Function.update w.tree p (F w.KERNEL_VER (w.tree p)) ∧
    (effect (exec b) l w).KERNEL_VER = w.KERNEL_VER ∧ (effect (exec b) l w).deb = w.deb

theorem visits_genPackage (p : Pkg) : Visits b p (genPackage p) (b.described p) := by
  intro w
  obtain ⟨s, f, h⟩ := effect_genPackage (b := b) p w
  rw [h]
  exact ⟨rfl, rfl, rfl⟩

/-- one command that is a tool at work on one tree -/
theorem visits_on {p : Pkg} {c : Cmd} {f : PkgTree → Option PkgTree} (h : ∀ w, exec b c w = w.on p f) :
    Visits b p [c] fun _ t => (f t).getD t := by
  intro w
  rw [effect_cons, effect_nil, h w, on_eq]
  exact ⟨rfl, rfl, rfl⟩

theorem Visits.append {p : Pkg} {l m : List Cmd} {F G : List Char → PkgTree → PkgTree} (hl : Visits b p l F)
    (hm : Visits b p m G) : Visits b p (l ++ m) fun v t => G v (F v t) := by
  intro w
  obtain ⟨h1, h2, h3⟩ := hl w
  obtain ⟨g1, g2, g3⟩ := hm (effect (exec b) l w)
  rw [effect_append]
  refine ⟨?_, g2.trans h2, g3.trans h3⟩
  rw [g1, h1, h2, Function.update_self, Function.update_idem]

theorem visits_list {c : Pkg → List Cmd} {F : Pkg → List Char → PkgTree → PkgTree} (h : ∀ p, Visits b p (c p) (F p))
    {l : List Pkg} (hl : l.Nodup) (w : World) :
    (∀ p, (effect (exec b) (l.flatMap c) w).tree p = if p ∈ l then F p w.KERNEL_VER (w.tree p) else w.tree p) ∧
      (effect (exec b) (l.flatMap c) w).KERNEL_VER = w.KERNEL_VER ∧ (effect (exec b) (l.flatMap c) w).deb = w.deb := by
  induction l generalizing w with
  | nil => simp
  | cons q l ih =>
    obtain ⟨h1, h2, h3⟩ := h q w
    obtain ⟨i1, i2, i3⟩ := ih (List.nodup_cons.1 hl).2 (effect (exec b) (c q) w)
    rw [List.flatMap_cons, effect_append]
    refine ⟨?_, i2.trans h2, i3.trans h3⟩
    intro p
    rw [i1, h2, h1]
    by_cases hp : p = q
    · subst hp
      rw [if_neg (List.nodup_cons.1 hl).1, if_pos (by simp), Function.update_self]
    · simp [hp]

theorem visits_pkgs {c : Pkg → List Cmd} {F : Pkg → List Char → PkgTree → PkgTree} (h : ∀ p, Visits b p (c p) (F p))
    (w : World) :
    (effect (exec b) (MkLinux.pkgs.flatMap c) w).tree = (fun p => F p w.KERNEL_VER (w.tree p)) ∧
      (effect (exec b) (MkLinux.pkgs.flatMap c) w).KERNEL_VER = w.KERNEL_VER ∧
      (effect (exec b) (MkLinux.pkgs.flatMap c) w).deb = w.deb := by
  obtain ⟨h1, h2⟩ := visits_list h (l := MkLinux.pkgs) (by decide) w
  refine ⟨?_, h2⟩
  funext p
  rw [h1, if_pos (by cases p <;> decide)]

/-! ### `gen_package_doc` -/

namespace Build

variable (b : Build)

def copyrighted (p : Pkg) (t : PkgTree) : PkgTree :=
  (t.write (b.docDir p) "copyright" (.text (copyright.map String.toList))).getD t

/-- `cp` of the changelog -/
def copied (p : Pkg) (t : PkgTree) : PkgTree :=
  ((t.read ["DEBIAN", "changelog"]).bind fun c => t.cpInto docParent (b.docName p) "changelog" c).getD t

def zipped (p : Pkg) (t : PkgTree) : PkgTree :=
  (t.gzip (b.docDir p) "changelog" "changelog.gz" (b.tools.gzip p) (b.overwrite p)).getD t

/-- what the stage does to the tree of one package -/
def documented (p : Pkg) (t : PkgTree) : PkgTree := b.zipped p (b.copied p (b.copyrighted p (t.mkdirP (b.docDir p))))

/-- `KERNEL_VER` -/
def kernelVer : List Char := "\n".toList.intercalate ((ls ["lib", "modules"] (b.tree .image)).map String.toList)

/-- the tree `dpkg-deb -b` is called on -/
def final (p : Pkg) : PkgTree := b.documented p (b.described p b.kernelVer (b.tree p))

end Build

theorem gen_package_doc_eq : MkLinux.gen_package_doc =
    MkLinux.pkgs.flatMap (fun p => [.mkdirDoc p]) ++ (MkLinux.pkgs.flatMap (fun p => [.genCopyright p]) ++
      MkLinux.pkgs.flatMap fun p => [.cpChangelog p] ++ [.gzipChangelog p]) := rfl

theorem visits_mkdirDoc (p : Pkg) : Visits b p [.mkdirDoc p] fun _ t => t.mkdirP (b.docDir p) :=
  fun _ => ⟨rfl, rfl, rfl⟩

theorem effect_gen_package_doc (w : World) :
    (effect (exec b) MkLinux.gen_package_doc w).tree = (fun p => b.documented p (w.tree p)) ∧
      (effect (exec b) MkLinux.gen_package_doc w).deb = w.deb := by
  have hcopy : ∀ p, Visits b p [.genCopyright p] fun _ t => b.copyrighted p t := fun p => visits_on fun _ => rfl
  have hlog : ∀ p, Visits b p ([.cpChangelog p] ++ [.gzipChangelog p]) fun _ t => b.zipped p (b.copied p t) :=
    fun p => (visits_on fun _ => rfl).append (visits_on fun _ => rfl)
  rw [gen_package_doc_eq, effect_append, effect_append]
  obtain ⟨m1, -, m3⟩ := visits_pkgs (b := b) visits_mkdirDoc w
  obtain ⟨c1, -, c3⟩ := visits_pkgs hcopy (effect (exec b) (MkLinux.pkgs.flatMap fun p => [.mkdirDoc p]) w)
  obtain ⟨l1, -, l3⟩ := visits_pkgs hlog (effect (exec b) (MkLinux.pkgs.flatMap fun p => [.genCopyright p])
    (effect (exec b) (MkLinux.pkgs.flatMap fun p => [.mkdirDoc p]) w))
  rw [l1, c1, m1, l3, c3, m3]
  exact ⟨rfl, rfl⟩

/-! ### `dpkg-deb -b` -/

/-- the package made from a tree, where `old` is the one there is -/
def packed (t : PkgTree) (old : Option PkgTree) : Option PkgTree :=
  match t.lookup ["DEBIAN", "control"] with
  | some (.file _) => some t
  | _ => old

theorem packed_packed (t : PkgTree) (old : Option PkgTree) : packed t (packed t old) = packed t old := by
  unfold packed
  split <;> simp_all

theorem exec_dpkgDeb (q : Pkg) (w : World) :
    (exec b (.dpkgDeb q) w).2 = { w with deb := Function.update w.deb q (packed (w.tree q) (w.deb q)) } := by
  rw [exec, packed]
  split
  · rfl
  · rw [Function.update_eq_self]

theorem effect_dpkgDeb (l : List Pkg) (w : World) (p : Pkg) :
    (effect (exec b) (l.map .dpkgDeb) w).deb p = if p ∈ l then packed (w.tree p) (w.deb p) else w.deb p := by
  induction l generalizing w with
  | nil => rfl
  | cons q l ih =>
    rw [List.map_cons, effect_cons, ih, exec_dpkgDeb]
    dsimp only
    by_cases hp : p = q
    · subst hp
      rw [Function.update_self, packed_packed, ite_self, if_pos (by simp)]
    · rw [Function.update_of_ne hp]
      simp only [List.mem_cons, hp, false_or]

/-- **What is packed**: the final tree, if it has a control file -/
theorem deb_eq (p : Pkg) : b.deb p = packed (b.final p) none := by
  have hrun := run_loose_block (exec_stat b)
    (MkLinux.gen_debian_file ++ MkLinux.gen_package_doc ++ MkLinux.pkgs.map .dpkgDeb) b.start
  obtain ⟨g1, -, g3⟩ := visits_pkgs (b := b) visits_genPackage (exec b .lsKernelVer b.start).2
  obtain ⟨d1, d3⟩ := effect_gen_package_doc (b := b) (effect (exec b) MkLinux.gen_debian_file b.start)
  rw [Build.deb, script, hrun, effect_append, effect_append, effect_dpkgDeb, if_pos (by cases p <;> decide), d1, d3,
    gen_debian_file_eq, effect_cons, g1, g3]
  rfl

end AvaotaOS.Metadata
