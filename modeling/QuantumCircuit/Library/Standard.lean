namespace QuantumCircuit

/-!
# The preloaded gate library

The text of the library that every session preloads unless it is asked not to.
It declares forty gates.  Six of them are primitives without a body, and every
other one is defined by calls of gates that stand above it.
-/

/-- The lines of the preloaded library. -/
def standardLines : List String := [
  "// Standard gate library for OpenQASM 2.0.",
  "//",
  "// Primitives are opaque. Every composite is written only in terms of gates",
  "// declared above it.",
  "",
  "// --- Primitives ---",
  "",
  "// General single-qubit rotation",
  "opaque U(theta, phi, lambda) q;",
  "// Controlled-NOT",
  "opaque CX c, t;",
  "opaque u3(theta, phi, lambda) q;",
  "opaque u2(phi, lambda) q;",
  "opaque u1(lambda) q;",
  "opaque cx c, t;",
  "",
  "// --- Single-qubit gates ---",
  "",
  "gate id a \x7b U(0, 0, 0) a; \x7d",
  "gate u0(gamma) q \x7b U(0, 0, 0) q; \x7d",
  "gate u(theta, phi, lambda) q \x7b U(theta, phi, lambda) q; \x7d",
  "gate p(lambda) q \x7b u1(lambda) q; \x7d",
  "",
  "// Paulis",
  "gate x a \x7b u3(pi, 0, pi) a; \x7d",
  "gate y a \x7b u3(pi, pi/2, pi/2) a; \x7d",
  "gate z a \x7b u1(pi) a; \x7d",
  "",
  "gate h a \x7b u2(0, pi) a; \x7d",
  "gate s a \x7b u1(pi/2) a; \x7d",
  "gate sdg a \x7b u1(-pi/2) a; \x7d",
  "gate t a \x7b u1(pi/4) a; \x7d",
  "gate tdg a \x7b u1(-pi/4) a; \x7d",
  "",
  "// Square root of X and its inverse",
  "gate sx a \x7b sdg a; h a; sdg a; \x7d",
  "gate sxdg a \x7b s a; h a; s a; \x7d",
  "",
  "// Axis rotations",
  "gate rx(theta) a \x7b u3(theta, -pi/2, pi/2) a; \x7d",
  "gate ry(theta) a \x7b u3(theta, 0, 0) a; \x7d",
  "gate rz(phi) a \x7b u1(phi) a; \x7d",
  "",
  "// --- Two-qubit gates ---",
  "",
  "gate swap a, b \x7b cx a, b; cx b, a; cx a, b; \x7d",
  "gate cz a, b \x7b h b; cx a, b; h b; \x7d",
  "gate cy a, b \x7b sdg b; cx a, b; s b; \x7d",
  "gate ch a, b \x7b",
  "  h b; sdg b;",
  "  cx a, b;",
  "  h b; t b;",
  "  cx a, b;",
  "  t b; h b; s b; x b; s a;",
  "\x7d",
  "",
  "// --- Three-qubit gates ---",
  "",
  "// Toffoli",
  "gate ccx a, b, c \x7b",
  "  h c;",
  "  cx b, c; tdg c;",
  "  cx a, c; t c;",
  "  cx b, c; tdg c;",
  "  cx a, c; t b; t c; h c;",
  "  cx a, b; t a; tdg b;",
  "  cx a, b;",
  "\x7d",
  "// Fredkin",
  "gate cswap a, b, c \x7b",
  "  cx c, b;",
  "  ccx a, b, c;",
  "  cx c, b;",
  "\x7d",
  "",
  "// --- Controlled rotations ---",
  "",
  "gate crx(lambda) a, b \x7b",
  "  u1(pi/2) b;",
  "  cx a, b;",
  "  u3(-lambda/2, 0, 0) b;",
  "  cx a, b;",
  "  u3(lambda/2, -pi/2, 0) b;",
  "\x7d",
  "gate cry(lambda) a, b \x7b",
  "  ry(lambda/2) b;",
  "  cx a, b;",
  "  ry(-lambda/2) b;",
  "  cx a, b;",
  "\x7d",
  "gate crz(lambda) a, b \x7b",
  "  rz(lambda/2) b;",
  "  cx a, b;",
  "  rz(-lambda/2) b;",
  "  cx a, b;",
  "\x7d",
  "gate cu1(lambda) a, b \x7b",
  "  u1(lambda/2) a;",
  "  cx a, b;",
  "  u1(-lambda/2) b;",
  "  cx a, b;",
  "  u1(lambda/2) b;",
  "\x7d",
  "gate cp(lambda) a, b \x7b",
  "  p(lambda/2) a;",
  "  cx a, b;",
  "  p(-lambda/2) b;",
  "  cx a, b;",
  "  p(lambda/2) b;",
  "\x7d",
  "gate cu3(theta, phi, lambda) c, t \x7b",
  "  u1((lambda + phi)/2) c;",
  "  u1((lambda - phi)/2) t;",
  "  cx c, t;",
  "  u3(-theta/2, 0, -(phi + lambda)/2) t;",
  "  cx c, t;",
  "  u3(theta/2, phi, 0) t;",
  "\x7d",
  "gate csx a, b \x7b h b; cu1(pi/2) a, b; h b; \x7d",
  "gate cu(theta, phi, lambda, gamma) c, t \x7b",
  "  p(gamma) c;",
  "  p((lambda + phi)/2) c;",
  "  p((lambda - phi)/2) t;",
  "  cx c, t;",
  "  u(-theta/2, 0, -(phi + lambda)/2) t;",
  "  cx c, t;",
  "  u(theta/2, phi, 0) t;",
  "\x7d",
  "",
  "// --- Ising couplings ---",
  "",
  "gate rxx(theta) a, b \x7b",
  "  u3(pi/2, theta, 0) a;",
  "  h b;",
  "  cx a, b;",
  "  u1(-theta) b;",
  "  cx a, b;",
  "  h b;",
  "  u2(-pi, pi - theta) a;",
  "\x7d",
  "gate rzz(theta) a, b \x7b",
  "  cx a, b;",
  "  u1(theta) b;",
  "  cx a, b;",
  "\x7d",
  "",
  "// Relative-phase Toffoli",
  "gate rccx a, b, c \x7b",
  "  u2(0, pi) c;",
  "  u1(pi/4) c;",
  "  cx b, c;",
  "  u1(-pi/4) c;",
  "  cx a, c;",
  "  u1(pi/4) c;",
  "  cx b, c;",
  "  u1(-pi/4) c;",
  "  u2(0, pi) c;",
  "\x7d"]

/-- The text of the preloaded library. -/
def standardText : String := String.join (standardLines.map fun line => line ++ "\n")

end QuantumCircuit
