/-!
# Powers

Bounds, masks and scaling factors are powers of a natural number or an integer. `x ^ n` is here
always the core library's power, which evaluates and which the arithmetic tactics know. A module
that also imports an algebraic library would otherwise read it as the power of a monoid, and the two
would have to be identified wherever they meet.
-/

attribute [instance (high + 1), default_instance (high + 1)] instPowNat
